import SoulCoreKit.Network.Downloader

/-!
# The downloaded file

While a reply is taken up, what is on the disk, what the file keeps back, what has arrived and what is
still to come make up the resource. A new transfer keeps this up if the size that was asked about is the
size the file will have, and if the server sends what was asked for. One reply at a time is taken up
when `download` is called between transfers.
-/

namespace SoulCoreKit.Network.Downloader

variable {fs : FileSystem} {content : Octets} {d : Downloader}

/-- A transfer can be started: the file is closed or will be, and either nothing is on the disk or
nothing is kept back and the server answers with what is missing. -/
def Startable (fs : FileSystem) (d : Downloader) (whole : Bool) : Prop :=
  (d.openFile.isSome → fs.setFileNameCloses = true) ∧
    (d.getExistingFileSize = 0 ∨ d.openFile.getD [] = [] ∧ whole = false)

def Proper (fs : FileSystem) (d : Downloader) : Event → Prop
  | .download whole => d.mReply = none ∧ Startable fs d whole
  | .resume whole => d.mIsPaused = true → Startable fs d whole
  | .pause | .chunk _ _ _ | .finish _ => True

/-- Success was reported with the content in the file only, and no `resume` failed. -/
structure Sound (content : Octets) (d : Downloader) : Prop where
  intact : ∀ completion ∈ d.completions, completion.success = true → completion.file = some content
  moving : d.stalled = false

structure Inv (fs : FileSystem) (content : Octets) (d : Downloader) : Prop where
  sound : Sound content d
  only : ∀ reply, (d.transfers reply).isSome → d.mReply = some reply
  current : ∀ reply, d.mReply = some reply → ∃ transfer onDisk kept,
    d.transfers reply = some transfer ∧ d.disk = some onDisk ∧ d.openFile = some kept ∧
      onDisk ++ kept ++ transfer.unread ++ transfer.rest = content
  between : d.mReply = none → d.disk.getD [] ++ d.openFile.getD [] <+: content
  possible : d.mReply.isSome ∨ d.mIsPaused = true → fs.mkpath = true
  paused : d.mIsPaused = true → d.mReply = none

theorem inv_start : Inv fs content {} where
  sound := ⟨fun _ hmem => absurd hmem List.not_mem_nil, rfl⟩
  only _ hsome := by cases hsome
  current _ hreply := by cases hreply
  between _ := List.nil_prefix
  possible hsome := by rcases hsome with hsome | hsome <;> cases hsome
  paused _ := rfl

theorem Sound.complete_false (hsound : Sound content d) (message : String) :
    Sound content (d.complete false message) := by
  refine ⟨?_, hsound.moving⟩
  intro completion hmem
  rw [complete, List.mem_append, List.mem_singleton] at hmem
  rcases hmem with hmem | rfl
  · exact hsound.intact completion hmem
  · intro hsuccess
    cases hsuccess

theorem setFileName_of_startable (hstart : d.openFile.isSome → fs.setFileNameCloses = true) :
    ∃ disk, d.setFileName fs = { d with disk := disk, openFile := none } ∧
      disk.getD [] = d.disk.getD [] ++ d.openFile.getD [] := by
  rw [setFileName]
  cases hopen : d.openFile with
  | none =>
    have hclose : d.close = d := by rw [close, hopen]
    refine ⟨d.disk, ?_, by simp⟩
    rw [hclose, ite_self, ← hopen]
  | some kept =>
    rw [if_pos (hstart (by rw [hopen]; rfl)), close, hopen]
    exact ⟨_, rfl, rfl⟩

theorem startDownload_of_startable (hmkpath : fs.mkpath = true) {whole : Bool}
    (hstart : Startable fs d whole) (hpart : d.disk.getD [] ++ d.openFile.getD [] <+: content) :
    ∃ onDisk rest, onDisk ++ rest = content ∧
      d.startDownload fs content whole = { d with
        disk := some onDisk
        openFile := some []
        transfers := Function.update d.transfers d.created (some { rest := rest })
        created := d.created + 1
        mReply := some d.created } := by
  obtain ⟨disk, hset, hdisk⟩ := setFileName_of_startable hstart.1
  rw [Downloader.startDownload, if_neg (not_not.mpr hmkpath), hset]
  dsimp only
  rw [Option.isSome_none, if_neg Bool.false_ne_true]
  rcases Nat.eq_zero_or_pos d.getExistingFileSize with hzero | hpos
  · refine ⟨[], content, rfl, ?_⟩
    rw [hzero, if_neg (lt_irrefl 0), if_neg (fun hboth => lt_irrefl 0 hboth.1)]
  · obtain ⟨hkept, hsuffix⟩ := hstart.2.resolve_left hpos.ne'
    rw [hkept, List.append_nil] at hpart hdisk
    refine ⟨d.disk.getD [], content.drop d.getExistingFileSize, ?_, ?_⟩
    · exact List.prefix_iff_eq_append.mp hpart
    · have hsome : disk = some (d.disk.getD []) := by
        cases hexists : disk with
        | none =>
          rw [hexists] at hdisk
          rw [getExistingFileSize, ← hdisk] at hpos
          exact absurd hpos (lt_irrefl 0)
        | some bytes =>
          rw [hexists] at hdisk
          rw [← hdisk]
          rfl
      rw [if_pos hpos, if_pos ⟨hpos, by rw [hsuffix]; decide⟩, hsome]

theorem Inv.transfers_eq_none (hinv : Inv fs content d) (hreply : d.mReply = none) (reply : Nat) :
    d.transfers reply = none := by
  by_contra hsome
  have hcurrent := hinv.only reply (Option.isSome_iff_ne_none.mpr hsome)
  rw [hreply] at hcurrent
  cases hcurrent

theorem Inv.startDownload (hinv : Inv fs content d) (hreply : d.mReply = none)
    (hpaused : d.mIsPaused = false) {whole : Bool} (hstart : Startable fs d whole) :
    Inv fs content (d.startDownload fs content whole) ∧
      (fs.mkpath = true → (d.startDownload fs content whole).mReply.isSome) := by
  by_cases hmkpath : fs.mkpath = true
  · obtain ⟨onDisk, rest, hcontent, hstarted⟩ :=
      startDownload_of_startable hmkpath hstart (hinv.between hreply)
    rw [hstarted]
    refine ⟨⟨⟨hinv.sound.intact, hinv.sound.moving⟩, ?_, ?_, ?_, fun _ => hmkpath, ?_⟩, fun _ => rfl⟩
    · intro reply hsome
      by_cases hnew : reply = d.created
      · rw [hnew]
      · simp only [Function.update_of_ne hnew, hinv.transfers_eq_none hreply] at hsome
        cases hsome
    · intro reply hcurrent
      obtain rfl : d.created = reply := by simpa using hcurrent
      exact ⟨{ rest := rest }, onDisk, [], Function.update_self _ _ _, rfl, rfl, by simpa using hcontent⟩
    · intro hnone
      cases hnone
    · intro hpause
      rw [hpaused] at hpause
      cases hpause
  · have hrefused : d.startDownload fs content whole = d.complete false "Cannot create directory" := by
      rw [Downloader.startDownload, if_pos hmkpath]
    rw [hrefused]
    refine ⟨?_, fun hpath => absurd hpath hmkpath⟩
    exact ⟨hinv.sound.complete_false _, hinv.only, hinv.current, hinv.between, hinv.possible, hinv.paused⟩

theorem Inv.unpaused (hinv : Inv fs content d) (running : Bool) :
    Inv fs content { d with mIsPaused := false, mIsRunning := running } where
  sound := ⟨hinv.sound.intact, hinv.sound.moving⟩
  only := hinv.only
  current := hinv.current
  between := hinv.between
  possible hsome := hinv.possible (.inl (hsome.resolve_right Bool.false_ne_true))
  paused hpaused := absurd hpaused Bool.false_ne_true

theorem Inv.download (hinv : Inv fs content d) {whole : Bool} (hreply : d.mReply = none)
    (hstart : Startable fs d whole) : Inv fs content (d.download fs content whole) :=
  ((hinv.unpaused true).startDownload hreply rfl hstart).1

theorem Inv.resume (hinv : Inv fs content d) {whole : Bool}
    (hstart : d.mIsPaused = true → Startable fs d whole) :
    Inv fs content (d.resume fs content whole) := by
  rw [Downloader.resume]
  by_cases hpaused : d.mIsPaused = true
  · rw [if_pos hpaused]
    obtain ⟨hnext, hstarted⟩ := (hinv.unpaused d.mIsRunning).startDownload (hinv.paused hpaused) rfl
      (hstart hpaused)
    have hsome := hstarted (hinv.possible (.inr hpaused))
    refine ⟨⟨hnext.sound.intact, ?_⟩, hnext.only, hnext.current, hnext.between, hnext.possible,
      hnext.paused⟩
    change (_ || Option.isNone _) = false
    rw [Bool.or_eq_false_iff]
    refine ⟨hnext.sound.moving, ?_⟩
    rw [Option.isNone_eq_false_iff]
    exact hsome
  · rw [if_neg hpaused]
    exact hinv

theorem Inv.only_of_erased (hinv : Inv fs content d) {current : Nat} (hcurrent : d.mReply = some current)
    (reply : Nat) : Function.update d.transfers current none reply = none := by
  by_cases hsame : reply = current
  · rw [hsame, Function.update_self]
  · rw [Function.update_of_ne hsame]
    by_contra hsome
    have hother := hinv.only reply (Option.isSome_iff_ne_none.mpr hsome)
    rw [hcurrent, Option.some.injEq] at hother
    exact hsame hother.symm

theorem Inv.pause (hinv : Inv fs content d) : Inv fs content d.pause := by
  rw [Downloader.pause]
  split_ifs with hcondition
  · obtain ⟨current, hcurrent⟩ := Option.isSome_iff_exists.mp hcondition.1
    obtain ⟨transfer, onDisk, kept, -, hdisk, hkept, hcontent⟩ := hinv.current current hcurrent
    have haborted : d.onDownloadFinished .operationCanceledError "Operation canceled" 0 =
        { d with transfers := Function.update d.transfers current none, mReply := none } := by
      rw [onDownloadFinished, hcurrent]
      rfl
    rw [haborted]
    refine ⟨⟨hinv.sound.intact, hinv.sound.moving⟩, ?_, ?_, ?_, ?_, fun _ => rfl⟩
    · intro reply hsome
      simp only [hinv.only_of_erased hcurrent] at hsome
      cases hsome
    · intro reply hreply
      cases hreply
    · intro _
      simp only [hdisk, hkept, Option.getD_some]
      rw [← hcontent, List.append_assoc (onDisk ++ kept)]
      exact List.prefix_append _ _
    · intro _
      exact hinv.possible (.inl hcondition.1)
  · exact hinv

theorem writeUnread_eq {current : Nat} {transfer : Transfer} {onDisk kept : Octets}
    (hcurrent : d.mReply = some current) (htransfer : d.transfers current = some transfer)
    (hdisk : d.disk = some onDisk) (hkept : d.openFile = some kept) (flushed : Nat) :
    d.writeUnread flushed = { d with
      disk := some (onDisk ++ (kept ++ transfer.unread).take flushed)
      openFile := some ((kept ++ transfer.unread).drop flushed)
      transfers := Function.update d.transfers current (some { transfer with unread := [] }) } := by
  simp only [writeUnread, hcurrent, htransfer, write, hkept, hdisk, Option.getD_some]

theorem Inv.chunk (hinv : Inv fs content d) {reply : Nat} (hsome : (d.transfers reply).isSome)
    (size flushed : Nat) : Inv fs content ((d.receive reply size).onReadyRead flushed) := by
  have hcurrent := hinv.only reply hsome
  obtain ⟨transfer, onDisk, kept, htransfer, hdisk, hkept, hcontent⟩ := hinv.current reply hcurrent
  let arrived : Transfer := ⟨transfer.rest.drop size, transfer.unread ++ transfer.rest.take size⟩
  have hreceived : d.receive reply size =
      { d with transfers := Function.update d.transfers reply (some arrived) } := by
    rw [receive, htransfer]
  have hwritten : (d.receive reply size).onReadyRead flushed = { d with
      disk := some (onDisk ++ (kept ++ arrived.unread).take flushed)
      openFile := some ((kept ++ arrived.unread).drop flushed)
      transfers := Function.update d.transfers reply (some { arrived with unread := [] }) } := by
    rw [onReadyRead, hreceived, if_pos ⟨by rw [hcurrent]; rfl, by rw [hkept]; rfl⟩,
      @writeUnread_eq { d with transfers := Function.update d.transfers reply (some arrived) } reply
        arrived onDisk kept hcurrent (Function.update_self _ _ _) hdisk hkept flushed]
    simp only [Function.update_idem]
  rw [hwritten]
  refine ⟨⟨hinv.sound.intact, hinv.sound.moving⟩, ?_, ?_, ?_, hinv.possible, hinv.paused⟩
  · intro other hother
    by_cases hsame : other = reply
    · rw [hsame]
      exact hcurrent
    · simp only [Function.update_of_ne hsame] at hother
      exact hinv.only other hother
  · intro other hother
    obtain rfl : reply = other := by
      rw [hcurrent, Option.some.injEq] at hother
      exact hother
    refine ⟨_, _, _, Function.update_self _ _ _, rfl, rfl, ?_⟩
    calc onDisk ++ (kept ++ arrived.unread).take flushed ++ (kept ++ arrived.unread).drop flushed ++ [] ++
          arrived.rest = onDisk ++ (kept ++ arrived.unread) ++ arrived.rest := by
          rw [List.append_nil, List.append_assoc onDisk, List.take_append_drop]
      _ = onDisk ++ kept ++ transfer.unread ++ (transfer.rest.take size ++ transfer.rest.drop size) := by
          simp only [arrived, List.append_assoc]
      _ = content := by rw [List.take_append_drop, hcontent]
  · intro hnone
    exact absurd (hcurrent.symm.trans hnone) (Option.some_ne_none reply)

theorem Inv.finish (hinv : Inv fs content d) (reply : Nat) : Inv fs content (d.finish reply) := by
  rw [Downloader.finish]
  cases hfound : d.transfers reply with
  | none => exact hinv
  | some found =>
    dsimp only
    split_ifs with hrest
    · have hcurrent := hinv.only reply (by rw [hfound]; rfl)
      obtain ⟨transfer, onDisk, kept, htransfer, hdisk, hkept, hcontent⟩ := hinv.current reply hcurrent
      obtain rfl : found = transfer := by
        rw [hfound, Option.some.injEq] at htransfer
        exact htransfer
      rw [hrest, List.append_nil] at hcontent
      have hfinished : d.onDownloadFinished .noError "" 0 = { d with
          disk := some content
          openFile := none
          transfers := Function.update d.transfers reply none
          mReply := none
          mIsRunning := false
          completions := d.completions ++ [⟨true, "", some content⟩] } := by
        simp only [onDownloadFinished, hcurrent, writeUnread_eq hcurrent htransfer hdisk hkept, if_true,
          close, complete, List.take_zero, List.drop_zero, List.append_nil, Option.getD_some,
          Function.update_idem, ← hcontent, List.append_assoc]
      rw [hfinished]
      refine ⟨⟨?_, hinv.sound.moving⟩, ?_, ?_, ?_, ?_, fun _ => rfl⟩
      · intro completion hmem
        rw [List.mem_append, List.mem_singleton] at hmem
        rcases hmem with hmem | rfl
        · exact hinv.sound.intact completion hmem
        · exact fun _ => rfl
      · intro other hother
        simp only [Function.update_idem, hinv.only_of_erased hcurrent] at hother
        cases hother
      · intro other hother
        cases hother
      · intro _
        simp
      · intro hsome
        exact hinv.possible (.inr (hsome.resolve_left Bool.false_ne_true))
    · exact hinv

theorem Inv.step (hinv : Inv fs content d) {event : Event} (hproper : Proper fs d event) :
    Inv fs content (d.step fs content event) := by
  cases event with
  | download whole => exact hinv.download hproper.1 hproper.2
  | pause => exact hinv.pause
  | resume whole => exact hinv.resume hproper
  | chunk reply size flushed =>
    rw [Downloader.step]
    split_ifs with hsome
    · exact hinv.chunk hsome size flushed
    · exact hinv
  | finish reply => exact hinv.finish reply

/-- Along every run of proper events success is reported with the content in the file only, and every
`resume` after a pause starts a transfer. -/
theorem sound_of_proper {events : List Event}
    (hproper : Along (step fs content) (Proper fs) {} events) (n : Nat) :
    Sound content (run (step fs content) {} (events.take n)) := by
  have hinv : Inv fs content (run (step fs content) {} (events.take n)) := by
    apply hproper.always inv_start
    intro d event hinv hevent
    exact hinv.step hevent
  exact hinv.sound

/-- A byte has reached the disk when the transfer is paused, and the server sends the other one. -/
def pausedRun : List Event :=
  [.download false, .chunk 0 1 1, .pause, .resume false, .chunk 1 1 0, .finish 1]

theorem sound_pausedRun :
    Sound [1, 2] (run (step {} [1, 2]) {} pausedRun) ∧
      (run (step {} [1, 2]) {} pausedRun).completions = [⟨true, "", some [1, 2]⟩] := by
  have hproper : Along (step {} [1, 2]) (Proper {}) {} pausedRun := by
    refine ⟨⟨rfl, ?_, .inl rfl⟩, trivial, trivial, ?_, trivial, trivial, trivial⟩
    · intro hopen
      cases hopen
    · intro _
      exact ⟨fun _ => rfl, .inr ⟨rfl, rfl⟩⟩
  exact ⟨sound_of_proper hproper 6, by decide⟩

/-- The resource is downloaded again, and the server sends all of it. -/
theorem not_sound_whole_answer :
    (run (step {} [1]) {} [.download false, .chunk 0 1 1, .finish 0, .download true, .chunk 1 1 1,
        .finish 1]).completions = [⟨true, "", some [1]⟩, ⟨true, "", some [1, 1]⟩] ∧
      ¬ Sound [1] (run (step {} [1]) {} [.download false, .chunk 0 1 1, .finish 0, .download true,
        .chunk 1 1 1, .finish 1]) := by
  have hcompletions : (run (step {} [1]) {} [.download false, .chunk 0 1 1, .finish 0, .download true,
      .chunk 1 1 1, .finish 1]).completions = [⟨true, "", some [1]⟩, ⟨true, "", some [1, 1]⟩] := by
    decide
  refine ⟨hcompletions, fun hsound => ?_⟩
  have hintact := hsound.intact ⟨true, "", some [1, 1]⟩ (by rw [hcompletions]; decide) rfl
  exact absurd hintact (by decide)

end SoulCoreKit.Network.Downloader
