import SoulCoreKit.Network.HttpClient
import SoulCoreKit.Lib.Run

/-!
# The downloader

`network::Downloader` for one resource and one save path, driven by calls and by the replies. A reply
that is not aborted brings its bytes in chunks of any sizes and then finishes. It stays connected to the
slots when the downloader takes up another reply, and the slots look at the current reply, not at the
one that called them. `abort` emits `finished` before it returns.

An open file keeps bytes back: with each write any number of them reaches the disk, the others when the
file is closed. A file that is open already cannot be opened. What `setFileName` does with an open file
is the runtime's choice: it closes it, or leaves it open.
-/

namespace SoulCoreKit.Network

abbrev Octets := List UInt8

/-- What the runtime decides. -/
structure FileSystem where
  mkpath : Bool := true
  setFileNameCloses : Bool := true

/-- A reply that has not finished. -/
structure Transfer where
  rest : Octets
  unread : Octets := []

/-- A call of the complete callback, with the file at that time. -/
structure Completion where
  success : Bool
  message : String
  file : Option Octets
  deriving DecidableEq

/-- `openFile` are the bytes an open file keeps back. `stalled` is not the program's: a `resume` after a
pause has not started a transfer. -/
structure Downloader where
  disk : Option Octets := none
  openFile : Option Octets := none
  transfers : Nat → Option Transfer := fun _ => none
  created : Nat := 0
  mReply : Option Nat := none
  mIsPaused : Bool := false
  mIsRunning : Bool := false
  completions : List Completion := []
  stalled : Bool := false

namespace Downloader

variable (fs : FileSystem) (content : Octets)

/-! ### The file -/

/-- `flushed` of the bytes that are kept back reach the disk. -/
def write (d : Downloader) (data : Octets) (flushed : Nat) : Downloader :=
  match d.openFile with
  | none => d
  | some kept =>
      { d with
        disk := some (d.disk.getD [] ++ (kept ++ data).take flushed)
        openFile := some ((kept ++ data).drop flushed) }

def close (d : Downloader) : Downloader :=
  match d.openFile with
  | none => d
  | some kept => { d with disk := some (d.disk.getD [] ++ kept), openFile := none }

def setFileName (d : Downloader) : Downloader := if fs.setFileNameCloses then d.close else d

def getExistingFileSize (d : Downloader) : Nat := (d.disk.getD []).length

def complete (d : Downloader) (success : Bool) (message : String) : Downloader :=
  { d with completions := d.completions ++ [⟨success, message, d.disk⟩] }

/-! ### The slots -/

/-- `m_reply->readAll()`, written to the file. -/
def writeUnread (d : Downloader) (flushed : Nat) : Downloader :=
  match d.mReply with
  | none => d
  | some reply =>
      match d.transfers reply with
      | none => d
      | some transfer =>
          { d.write transfer.unread flushed with
            transfers := Function.update d.transfers reply (some { transfer with unread := [] }) }

def onReadyRead (d : Downloader) (flushed : Nat) : Downloader :=
  if d.mReply.isSome ∧ d.openFile.isSome then d.writeUnread flushed else d

/-- `error` is the one of the current reply, `errorString` its text. -/
def onDownloadFinished (d : Downloader) (error : NetworkError) (errorString : String) (flushed : Nat) :
    Downloader :=
  match d.mReply with
  | none => d
  | some reply =>
      let d :=
        if error = .noError then
          { (d.writeUnread flushed).close with mIsRunning := false }.complete true ""
        else if error ≠ .operationCanceledError then
          d.complete false errorString
        else
          d
      { d with transfers := Function.update d.transfers reply none, mReply := none }

/-! ### The calls -/

/-- `whole` is how the server answers a `Range` request: with all of the content. -/
def startDownload (d : Downloader) (whole : Bool) : Downloader :=
  let existingSize := d.getExistingFileSize
  if ¬ fs.mkpath then
    d.complete false "Cannot create directory"
  else
    let d := d.setFileName fs
    if d.openFile.isSome then
      d.complete false
        (if existingSize > 0 then "Cannot open file for append" else "Cannot open file for writing")
    else
      let disk := if existingSize > 0 then d.disk else some []
      let answer := if existingSize > 0 ∧ ¬ whole then content.drop existingSize else content
      { d with
        disk := disk
        openFile := some []
        transfers := Function.update d.transfers d.created (some { rest := answer })
        created := d.created + 1
        mReply := some d.created }

def download (d : Downloader) (whole : Bool) : Downloader :=
  { d with mIsPaused := false, mIsRunning := true }.startDownload fs content whole

def pause (d : Downloader) : Downloader :=
  if d.mReply.isSome ∧ d.mIsRunning ∧ ¬ d.mIsPaused then
    { d.onDownloadFinished .operationCanceledError "Operation canceled" 0 with mIsPaused := true }
  else
    d

def resume (d : Downloader) (whole : Bool) : Downloader :=
  if d.mIsPaused then
    let d := { d with mIsPaused := false }.startDownload fs content whole
    { d with stalled := d.stalled || d.mReply.isNone }
  else
    d

/-! ### Runs -/

inductive Event where
  | download (whole : Bool)
  | pause
  | resume (whole : Bool)
  | chunk (reply size flushed : Nat)
  | finish (reply : Nat)
  deriving DecidableEq

/-- Some of the bytes of a reply arrive. -/
def receive (d : Downloader) (reply size : Nat) : Downloader :=
  match d.transfers reply with
  | none => d
  | some transfer =>
      { d with
        transfers := Function.update d.transfers reply
          (some ⟨transfer.rest.drop size, transfer.unread ++ transfer.rest.take size⟩) }

/-- A reply finishes when all of its bytes have arrived, and is connected no longer. -/
def finish (d : Downloader) (reply : Nat) : Downloader :=
  match d.transfers reply with
  | none => d
  | some transfer =>
      if transfer.rest = [] then
        let d := d.onDownloadFinished .noError "" 0
        { d with transfers := Function.update d.transfers reply none }
      else
        d

def step (d : Downloader) : Event → Downloader
  | .download whole => d.download fs content whole
  | .pause => d.pause
  | .resume whole => d.resume fs content whole
  | .chunk reply size flushed =>
      if (d.transfers reply).isSome then (d.receive reply size).onReadyRead flushed else d
  | .finish reply => d.finish reply

end Downloader

end SoulCoreKit.Network
