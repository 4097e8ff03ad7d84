import SoulCoreKit.Lib.UnorderedMap

/-!
# The rotating file sink

`sc::FileSink` over a file system whose operations succeed: opening for append creates a missing file, a
rename replaces its target and throws only where its source is missing. What is written reaches the file,
as it does at the latest when the process exits; directories are not modelled. The formatter is a virtual
method, so it is any function from records to bytes.
-/

namespace SoulCoreKit.Logging

/-- The contents of the files that exist. -/
abbrev Files := UnorderedMap String (List UInt8)

namespace Files

/-- `none` is the exception of `std::filesystem::rename`. -/
def rename (files : Files) (src dst : String) : Option Files :=
  match files.lookup src with
  | none => none
  | some content => some ((files.erase src).insert dst content)

def openAppendFile (files : Files) (path : String) : Files :=
  match files.lookup path with
  | none => files.insert path []
  | some _ => files

/-- A write at the end of a file open for append. -/
def fwrite (files : Files) (path : String) (bytes : List UInt8) : Files :=
  files.insert path ((files.lookup path).getD [] ++ bytes)

end Files

/-- The name of a backup. -/
def backup (path : String) (i : Nat) : String := path ++ ("." ++ toString i)

/-- `mFile` is the name under which the file was opened. -/
structure FileSink (Record : Type) where
  mFilePath : String
  mMaxSize : UInt64
  mMaxFiles : Int
  mFormatter : Record → List UInt8
  mFile : Option String
  mCurrentSize : UInt64 := 0

namespace FileSink

variable {Record : Type}

/-- The constructor: the size starts at zero also where the file has contents. -/
def new (filePath : String) (formatter : Record → List UInt8) (maxSize : UInt64) (maxFiles : Int)
    (files : Files) : Files × FileSink Record :=
  (files.openAppendFile filePath,
    { mFilePath := filePath, mMaxSize := maxSize, mMaxFiles := maxFiles, mFormatter := formatter,
      mFile := some filePath })

/-- The loop of `rotateFile`, from `i` down to 1. -/
def shiftFiles (path : String) : Nat → Files → Option Files
  | 0, files => some files
  | i + 1, files =>
      if (files.lookup (backup path (i + 1))).isSome then do
        let files ← files.rename (backup path (i + 1)) (backup path (i + 2))
        shiftFiles path i files
      else shiftFiles path i files

def rotateFile (sink : FileSink Record) (files : Files) : Option (Files × FileSink Record) := do
  let files ← shiftFiles sink.mFilePath (sink.mMaxFiles - 1).toNat files
  let files ← files.rename sink.mFilePath (backup sink.mFilePath 1)
  let files := files.openAppendFile sink.mFilePath
  some (files, { sink with mFile := some sink.mFilePath, mCurrentSize := 0 })

/-- `none` is an exception of the rotation. -/
def log (sink : FileSink Record) (files : Files) (record : Record) :
    Option (Files × FileSink Record) :=
  match sink.mFile with
  | none => some (files, sink)
  | some _ => do
      let formatted := sink.mFormatter record ++ [10]
      let len := UInt64.ofNat formatted.length
      let (files, sink) ←
        if sink.mCurrentSize + len > sink.mMaxSize then sink.rotateFile files else some (files, sink)
      let files := (sink.mFile.map fun file => files.fwrite file formatted).getD files
      some (files, { sink with mCurrentSize := sink.mCurrentSize + len })

/-- A call of the sink, or a new process with a sink of its own on the same path. -/
inductive Op (Record : Type) where
  | restart (formatter : Record → List UInt8) (maxSize : UInt64)
  | log (record : Record)

def exec (path : String) (maxFiles : Int) (state : Files × FileSink Record) :
    Op Record → Option (Files × FileSink Record)
  | .restart formatter maxSize => some (new path formatter maxSize maxFiles state.1)
  | .log record => state.2.log state.1 record

/-- The life of a log: the first process and everything after it. -/
def execAll (path : String) (maxFiles : Int) (files : Files) (formatter : Record → List UInt8)
    (maxSize : UInt64) (ops : List (Op Record)) : Option (Files × FileSink Record) :=
  ops.foldlM (exec path maxFiles) (new path formatter maxSize maxFiles files)

end FileSink

end SoulCoreKit.Logging
