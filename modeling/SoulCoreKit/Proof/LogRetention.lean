import SoulCoreKit.Lib.Run
import SoulCoreKit.Logging.FileSink
import Std.Data.String.ToNat

/-!
# What a rotated log retains

The ledger keeps every file a sink ever wrote, each with its records. A rotation of the sink closes the
file of the ledger, and the files on disk are the last ones of the ledger: the current one under the path
itself, those closed before it under the numbers from one on, as many as there are allowed to be.
-/

namespace SoulCoreKit.Logging

/-! ### The file system -/

theorem backup_inj {path : String} {i j : Nat} : backup path i = backup path j ↔ i = j := by
  unfold backup
  rw [String.append_right_inj, String.append_right_inj]
  exact Nat.repr_inj

theorem backup_ne_path (path : String) (i : Nat) : backup path i ≠ path := by
  intro heq
  have hlength := congrArg String.length heq
  unfold backup at hlength
  rw [String.length_append, String.length_append] at hlength
  have hdot : ".".length = 1 := rfl
  omega

namespace Files

theorem rename_eq {files : Files} {src dst : String} {content : List UInt8}
    (hsrc : files.lookup src = some content) :
    files.rename src dst = some ((files.erase src).insert dst content) := by
  unfold rename
  rw [hsrc]

theorem lookup_move (files : Files) (src dst name : String) (content : List UInt8) :
    ((files.erase src).insert dst content).lookup name =
      if name = dst then some content else if name = src then none else files.lookup name := by
  rw [UnorderedMap.lookup_insert_ite]
  split_ifs with hdst hsrc
  · rfl
  · rw [hsrc, Finmap.lookup_erase]
  · rw [Finmap.lookup_erase_ne hsrc]

theorem lookup_openAppendFile (files : Files) (path name : String) :
    (files.openAppendFile path).lookup name =
      if name = path then some ((files.lookup path).getD []) else files.lookup name := by
  unfold openAppendFile
  cases hpath : files.lookup path with
  | none => exact UnorderedMap.lookup_insert_ite files path [] name
  | some content =>
      by_cases hname : name = path
      · rw [if_pos hname, hname, hpath]
        rfl
      · rw [if_neg hname]

theorem lookup_fwrite {files : Files} {path : String} {content : List UInt8}
    (hpath : files.lookup path = some content) (bytes : List UInt8) (name : String) :
    (files.fwrite path bytes).lookup name =
      if name = path then some (content ++ bytes) else files.lookup name := by
  unfold fwrite
  rw [UnorderedMap.lookup_insert_ite, hpath]
  rfl

end Files

namespace FileSink

variable {Record : Type}

/-! ### The cascade of renames -/

/-- What the cascade leaves under each number: everything up to `n` moved up by one, and what was
under `n + 1` overwritten if there was something to move there. -/
def shifted (n : Nat) (contents : Nat → Option (List UInt8)) (i : Nat) : Option (List UInt8) :=
  if n = 0 ∨ i = 0 ∨ n + 1 < i then contents i
  else if i = 1 then none
  else if i = n + 1 then (contents n).or (contents (n + 1))
  else contents (i - 1)

/-- The names that are not a number after the path are left alone. -/
def SameElsewhere (path : String) (files files' : Files) : Prop :=
  ∀ name, (∀ i, name ≠ backup path i) → files'.lookup name = files.lookup name

/-- One turn of the cascade, whether or not there is a file to move. -/
theorem shiftFiles_succ (path : String) (n : Nat) (files : Files) :
    ∃ files', shiftFiles path (n + 1) files = shiftFiles path n files' ∧
      (∀ i, files'.lookup (backup path i) =
        if i = n + 2 then
          (files.lookup (backup path (n + 1))).or (files.lookup (backup path (n + 2)))
        else if i = n + 1 then none else files.lookup (backup path i)) ∧
      SameElsewhere path files files' := by
  cases hsrc : files.lookup (backup path (n + 1)) with
  | none =>
      refine ⟨files, by simp [shiftFiles, hsrc], ?_, fun _ _ => rfl⟩
      intro i
      split_ifs with htop hnext
      · rw [htop, Option.none_or]
      · rw [hnext, hsrc]
      · rfl
  | some content =>
      refine ⟨(files.erase (backup path (n + 1))).insert (backup path (n + 2)) content,
        by simp [shiftFiles, hsrc, Files.rename_eq hsrc], ?_, ?_⟩
      · intro i
        simp only [Files.lookup_move, backup_inj, Option.some_or]
      · intro name hname
        rw [Files.lookup_move, if_neg (hname _), if_neg (hname _)]

theorem shifted_succ (n : Nat) (contents : Nat → Option (List UInt8)) (i : Nat) :
    shifted n (fun i => if i = n + 2 then (contents (n + 1)).or (contents (n + 2))
      else if i = n + 1 then none else contents i) i = shifted (n + 1) contents i := by
  unfold shifted
  grind

/-- Where the numbers from one to `maxFiles` hold the first contents of a list, the cascade moves each up
by one; only what was under `maxFiles` is overwritten. -/
theorem shifted_of_backups {maxFiles : Nat} {contents : Nat → Option (List UInt8)}
    {closed : List (List UInt8)} (hmax : 1 ≤ maxFiles)
    (hcontents : ∀ i, contents (i + 1) = if i < maxFiles then closed[i]? else none) (i : Nat) :
    shifted (maxFiles - 1) contents (i + 2) = if i + 1 < maxFiles then closed[i]? else none := by
  unfold shifted
  by_cases hlt : i + 1 < maxFiles
  · rw [if_neg (by omega), if_neg (by omega), if_pos hlt]
    by_cases htop : i + 2 = maxFiles
    · obtain rfl : maxFiles = i + 2 := htop.symm
      rw [if_pos (by omega), Nat.add_sub_cancel_right (i + 1) 1, hcontents i, hcontents (i + 1),
        if_pos (by omega), if_pos (by omega)]
      cases hat : closed[i]? with
      | some content => rfl
      | none =>
          rw [List.getElem?_eq_none_iff] at hat
          rw [Option.none_or, List.getElem?_eq_none (by omega)]
    · rw [if_neg (by omega), Nat.add_sub_cancel_right (i + 1) 1, hcontents i, if_pos (by omega)]
  · rw [if_pos (by omega), hcontents (i + 1), if_neg hlt, if_neg hlt]

theorem shiftFiles_eq (path : String) (n : Nat) (files : Files) :
    ∃ files', shiftFiles path n files = some files' ∧
      (∀ i, files'.lookup (backup path i) = shifted n (fun i => files.lookup (backup path i)) i) ∧
      SameElsewhere path files files' := by
  induction n generalizing files with
  | zero => exact ⟨files, rfl, fun i => by simp [shifted], fun _ _ => rfl⟩
  | succ n ih =>
      obtain ⟨moved, hmoved, hlookup, helse⟩ := shiftFiles_succ path n files
      obtain ⟨files', hfiles', hshifted, helse'⟩ := ih moved
      refine ⟨files', hmoved.trans hfiles', ?_, ?_⟩
      · intro i
        rw [hshifted, ← shifted_succ, funext hlookup]
      · intro name hname
        rw [helse' name hname, helse name hname]

theorem rotateFile_eq {sink : FileSink Record} {files : Files} {content : List UInt8}
    (hcurrent : files.lookup sink.mFilePath = some content) :
    ∃ files', sink.rotateFile files =
        some (files', { sink with mFile := some sink.mFilePath, mCurrentSize := 0 }) ∧
      files'.lookup sink.mFilePath = some [] ∧
      (∀ i, files'.lookup (backup sink.mFilePath i) =
        if i = 1 then some content
        else shifted (sink.mMaxFiles - 1).toNat (fun i => files.lookup (backup sink.mFilePath i)) i) ∧
      ∀ name, name ≠ sink.mFilePath → (∀ i, name ≠ backup sink.mFilePath i) →
        files'.lookup name = files.lookup name := by
  obtain ⟨moved, hmoved, hlookup, helse⟩ :=
    shiftFiles_eq sink.mFilePath (sink.mMaxFiles - 1).toNat files
  have hpath : moved.lookup sink.mFilePath = some content := by
    rw [helse sink.mFilePath fun i => (backup_ne_path sink.mFilePath i).symm, hcurrent]
  have hfinal : ∀ name,
      (Files.openAppendFile ((moved.erase sink.mFilePath).insert (backup sink.mFilePath 1) content)
        sink.mFilePath).lookup name =
        if name = sink.mFilePath then some [] else if name = backup sink.mFilePath 1 then some content
        else moved.lookup name := by
    intro name
    simp only [Files.lookup_openAppendFile, Files.lookup_move,
      if_neg (backup_ne_path sink.mFilePath 1).symm, if_true]
    split_ifs <;> rfl
  refine ⟨_, ?_, (hfinal _).trans (if_pos rfl), ?_, ?_⟩
  · simp only [FileSink.rotateFile, hmoved, Files.rename_eq hpath, Option.bind_eq_bind, Option.bind_some]
  · intro i
    rw [hfinal, if_neg (backup_ne_path sink.mFilePath i), hlookup]
    simp only [backup_inj]
  · intro name hname hbackup
    rw [hfinal, if_neg hname, if_neg (hbackup 1), helse name hbackup]

/-! ### The ledger -/

/-- Every file a sink has written, newest first, with its records; `size` is what the sink counts. -/
structure Ledger (Record : Type) where
  formatter : Record → List UInt8
  maxSize : UInt64
  size : UInt64 := 0
  closed : List (List (List UInt8)) := []
  current : List (List UInt8) := []

/-- A record as it is written. -/
def line (formatter : Record → List UInt8) (record : Record) : List UInt8 := formatter record ++ [10]

theorem log_of_fits {sink : FileSink Record} {file : String} (hfile : sink.mFile = some file)
    (record : Record) (hfits : ¬sink.mCurrentSize +
      UInt64.ofNat (line sink.mFormatter record).length > sink.mMaxSize) (files : Files) :
    sink.log files record = some (files.fwrite file (line sink.mFormatter record),
      { sink with mCurrentSize :=
          sink.mCurrentSize + UInt64.ofNat (line sink.mFormatter record).length }) := by
  unfold line at hfits
  unfold FileSink.log
  simp only [hfile]
  rw [if_neg hfits]
  simp [hfile, line]

theorem log_of_full {sink sink' : FileSink Record} {file file' : String} {files files' : Files}
    (hfile : sink.mFile = some file) (record : Record) (hfull : sink.mCurrentSize +
      UInt64.ofNat (line sink.mFormatter record).length > sink.mMaxSize)
    (hrotate : sink.rotateFile files = some (files', sink')) (hfile' : sink'.mFile = some file') :
    sink.log files record = some (files'.fwrite file' (line sink.mFormatter record),
      { sink' with mCurrentSize :=
          sink'.mCurrentSize + UInt64.ofNat (line sink.mFormatter record).length }) := by
  unfold line at hfull
  unfold FileSink.log
  simp only [hfile]
  rw [if_pos hfull, hrotate]
  simp [hfile', line]

namespace Ledger

def write (ledger : Ledger Record) (text : List UInt8) : Ledger Record :=
  { ledger with
    current := ledger.current ++ [text]
    size := ledger.size + UInt64.ofNat text.length }

def rotate (ledger : Ledger Record) : Ledger Record :=
  { ledger with closed := ledger.current :: ledger.closed, current := [], size := 0 }

def step (ledger : Ledger Record) : Op Record → Ledger Record
  | .restart formatter maxSize => { ledger with formatter := formatter, maxSize := maxSize, size := 0 }
  | .log record =>
      let text := line ledger.formatter record
      if ledger.size + UInt64.ofNat text.length > ledger.maxSize then ledger.rotate.write text
      else ledger.write text

/-- All files, oldest first. -/
def files (ledger : Ledger Record) : List (List (List UInt8)) :=
  (ledger.current :: ledger.closed).reverse

theorem files_length (ledger : Ledger Record) : ledger.files.length = ledger.closed.length + 1 := by
  simp [files]

end Ledger

/-- The records logged from some point on, each as the formatter of its time writes it. -/
def logged (formatter : Record → List UInt8) : List (Op Record) → List (List UInt8)
  | [] => []
  | .restart formatter _ :: ops => logged formatter ops
  | .log record :: ops => line formatter record :: logged formatter ops

/-- The ledger holds the logged records in order: a rotation only starts a new file. -/
theorem Ledger.flatten_files (ledger : Ledger Record) (ops : List (Op Record)) :
    (run Ledger.step ledger ops).files.flatten =
      ledger.files.flatten ++ logged ledger.formatter ops := by
  induction ops generalizing ledger with
  | nil => simp [logged]
  | cons op ops ih =>
      rw [run_cons, ih]
      cases op with
      | restart formatter maxSize => simp [Ledger.step, Ledger.files, logged]
      | log record =>
          by_cases hfull :
              ledger.size + UInt64.ofNat (line ledger.formatter record).length > ledger.maxSize
          · simp [Ledger.step, hfull, Ledger.files, Ledger.write, Ledger.rotate, logged]
          · simp [Ledger.step, hfull, Ledger.files, Ledger.write, logged]

/-! ### The files on disk -/

/-- The files on disk: the current file, the last `maxFiles` closed ones, newest first, and what was
there before. -/
structure Retains (path : String) (maxFiles : Nat) (start : Files) (closed : List (List UInt8))
    (current : List UInt8) (files : Files) : Prop where
  current : files.lookup path = some current
  zero : files.lookup (backup path 0) = none
  backups : ∀ i, files.lookup (backup path (i + 1)) = if i < maxFiles then closed[i]? else none
  others : ∀ name, name ≠ path → (∀ i, name ≠ backup path i) → files.lookup name = start.lookup name

namespace Retains

variable {path : String} {maxFiles : Nat} {start files : Files} {closed : List (List UInt8)}
  {current : List UInt8}

theorem openAppendFile (hretains : Retains path maxFiles start closed current files) :
    files.openAppendFile path = files := by
  unfold Files.openAppendFile
  rw [hretains.current]

theorem fwrite (hretains : Retains path maxFiles start closed current files) (bytes : List UInt8) :
    Retains path maxFiles start closed (current ++ bytes) (files.fwrite path bytes) := by
  have hlookup := Files.lookup_fwrite hretains.current bytes
  constructor
  · rw [hlookup, if_pos rfl]
  · rw [hlookup, if_neg (backup_ne_path path 0), hretains.zero]
  · intro i
    rw [hlookup, if_neg (backup_ne_path path _), hretains.backups]
  · intro name hpath hbackup
    rw [hlookup, if_neg hpath, hretains.others name hpath hbackup]

theorem rotateFile {sink : FileSink Record} (hpath : sink.mFilePath = path)
    (hfiles : sink.mMaxFiles = maxFiles) (hmax : 1 ≤ maxFiles)
    (hretains : Retains path maxFiles start closed current files) :
    ∃ files', sink.rotateFile files =
        some (files', { sink with mFile := some path, mCurrentSize := 0 }) ∧
      Retains path maxFiles start (current :: closed) [] files' := by
  subst hpath
  have hcount : (sink.mMaxFiles - 1).toNat = maxFiles - 1 := by omega
  obtain ⟨files', hrotate, hcurrent, hbackup, helse⟩ := rotateFile_eq hretains.current
  rw [hcount] at hbackup
  refine ⟨files', hrotate, hcurrent, ?_, ?_, ?_⟩
  · rw [hbackup, if_neg (by decide)]
    simpa [shifted] using hretains.zero
  · intro i
    rw [hbackup]
    cases i with
    | zero => rw [if_pos rfl, if_pos (by omega), List.getElem?_cons_zero]
    | succ i =>
        rw [if_neg (by omega), shifted_of_backups hmax hretains.backups, List.getElem?_cons_succ]
  · intro name hname hother
    rw [helse name hname hother, hretains.others name hname hother]

end Retains

/-- The sink and the files after what the ledger has noted. -/
structure Matches (path : String) (maxFiles : Nat) (start : Files) (ledger : Ledger Record)
    (state : Files × FileSink Record) : Prop where
  sink : state.2 =
    { mFilePath := path, mMaxSize := ledger.maxSize, mMaxFiles := maxFiles,
      mFormatter := ledger.formatter, mFile := some path, mCurrentSize := ledger.size }
  files : Retains path maxFiles start (ledger.closed.map List.flatten) ledger.current.flatten state.1

namespace Matches

variable {path : String} {maxFiles : Nat} {start : Files} {ledger : Ledger Record}
  {state : Files × FileSink Record}

theorem write (hmatches : Matches path maxFiles start ledger state) (text : List UInt8) :
    Matches path maxFiles start (ledger.write text)
      (state.1.fwrite path text,
        { state.2 with mCurrentSize := state.2.mCurrentSize + UInt64.ofNat text.length }) := by
  constructor
  · rw [hmatches.sink]
    rfl
  · simpa [Ledger.write] using hmatches.files.fwrite text

theorem rotate (hmatches : Matches path maxFiles start ledger state) (hmax : 1 ≤ maxFiles) :
    ∃ state', state.2.rotateFile state.1 = some state' ∧
      Matches path maxFiles start ledger.rotate state' := by
  have hpath : state.2.mFilePath = path := congrArg mFilePath hmatches.sink
  have hmaxFiles : state.2.mMaxFiles = maxFiles := congrArg mMaxFiles hmatches.sink
  obtain ⟨files', hrotate, hretains⟩ := hmatches.files.rotateFile hpath hmaxFiles hmax
  refine ⟨_, hrotate, ?_, ?_⟩
  · rw [hmatches.sink]
    rfl
  · simpa [Ledger.rotate] using hretains

theorem log (hmatches : Matches path maxFiles start ledger state) (hmax : 1 ≤ maxFiles)
    (record : Record) :
    ∃ state', state.2.log state.1 record = some state' ∧
      Matches path maxFiles start (ledger.step (.log record)) state' := by
  have hfile : state.2.mFile = some path := congrArg mFile hmatches.sink
  have hformatter : state.2.mFormatter = ledger.formatter := congrArg mFormatter hmatches.sink
  have hsize : state.2.mCurrentSize = ledger.size := congrArg mCurrentSize hmatches.sink
  have hmaxSize : state.2.mMaxSize = ledger.maxSize := congrArg mMaxSize hmatches.sink
  by_cases hfull : ledger.size + UInt64.ofNat (line ledger.formatter record).length > ledger.maxSize
  · obtain ⟨rotated, hrotate, hrotated⟩ := hmatches.rotate hmax
    have hlog := log_of_full hfile record (by rwa [hformatter, hsize, hmaxSize]) hrotate
      (congrArg mFile hrotated.sink)
    refine ⟨_, hlog, ?_⟩
    rw [Ledger.step, if_pos hfull, ← hformatter]
    exact hrotated.write (line state.2.mFormatter record)
  · have hlog := log_of_fits hfile record (by rwa [hformatter, hsize, hmaxSize]) state.1
    refine ⟨_, hlog, ?_⟩
    rw [Ledger.step, if_neg hfull, ← hformatter]
    exact hmatches.write (line state.2.mFormatter record)

theorem restart (hmatches : Matches path maxFiles start ledger state)
    (formatter : Record → List UInt8) (maxSize : UInt64) :
    Matches path maxFiles start (ledger.step (.restart formatter maxSize))
      (new path formatter maxSize maxFiles state.1) := by
  constructor
  · rfl
  · unfold new
    rw [hmatches.files.openAppendFile]
    exact hmatches.files

theorem exec (hmatches : Matches path maxFiles start ledger state) (hmax : 1 ≤ maxFiles)
    (op : Op Record) :
    ∃ state', FileSink.exec path maxFiles state op = some state' ∧
      Matches path maxFiles start (ledger.step op) state' := by
  cases op with
  | restart formatter maxSize => exact ⟨_, rfl, hmatches.restart formatter maxSize⟩
  | log record => exact hmatches.log hmax record

theorem foldlM (hmatches : Matches path maxFiles start ledger state) (hmax : 1 ≤ maxFiles)
    (ops : List (Op Record)) :
    ∃ state', ops.foldlM (FileSink.exec path maxFiles) state = some state' ∧
      Matches path maxFiles start (run Ledger.step ledger ops) state' := by
  induction ops generalizing ledger state with
  | nil => exact ⟨state, rfl, hmatches⟩
  | cons op ops ih =>
      obtain ⟨next, hnext, hmatches⟩ := hmatches.exec hmax op
      obtain ⟨state', hrest, hend⟩ := ih hmatches
      refine ⟨state', ?_, hend⟩
      rw [List.foldlM_cons, hnext]
      exact hrest

end Matches

/-- No file stands under the path or under a number after it. -/
def Unused (path : String) (files : Files) : Prop := path ∉ files ∧ ∀ i, backup path i ∉ files

theorem Unused.new {path : String} {files : Files} (hunused : Unused path files) (maxFiles : Nat)
    (formatter : Record → List UInt8) (maxSize : UInt64) :
    Matches path maxFiles files { formatter := formatter, maxSize := maxSize }
      (new path formatter maxSize maxFiles files) := by
  have hlookup : ∀ name, ((files.openAppendFile path).lookup name) =
      if name = path then some [] else files.lookup name := by
    intro name
    rw [Files.lookup_openAppendFile, Finmap.lookup_eq_none.mpr hunused.1]
    rfl
  have hbackup : ∀ i, (files.openAppendFile path).lookup (backup path i) = none := by
    intro i
    rw [hlookup, if_neg (backup_ne_path path i), Finmap.lookup_eq_none.mpr (hunused.2 i)]
  refine ⟨rfl, ?_⟩
  constructor
  · exact (hlookup path).trans (if_pos rfl)
  · exact hbackup 0
  · intro i
    exact (hbackup (i + 1)).trans (by simp)
  · intro name hname _
    exact (hlookup name).trans (if_neg hname)

/-- The names from the oldest of `k` backups to the current file. -/
def generations (path : String) (k : Nat) : List String :=
  ((List.range k).map fun i => backup path (i + 1)).reverse ++ [path]

theorem Matches.generations {path : String} {maxFiles : Nat} {start : Files}
    {ledger : Ledger Record} {state : Files × FileSink Record}
    (hmatches : Matches path maxFiles start ledger state) {k : Nat}
    (hk : k = min ledger.closed.length maxFiles) :
    (generations path k).map (fun name => state.1.lookup name) =
      (ledger.files.drop (ledger.files.length - (k + 1))).map fun file => some file.flatten := by
  have hkept : ledger.files.drop (ledger.files.length - (k + 1)) =
      (ledger.closed.take k).reverse ++ [ledger.current] := by
    unfold Ledger.files
    rw [List.length_reverse, List.drop_reverse, List.length_cons,
      show ledger.closed.length + 1 - (ledger.closed.length + 1 - (k + 1)) = k + 1 by omega,
      List.take_succ_cons, List.reverse_cons]
  have hbackups : (List.range k).map (fun i => state.1.lookup (backup path (i + 1))) =
      (ledger.closed.take k).map fun file => some file.flatten := by
    apply List.ext_getElem
    · simp [hk]
    · intro i hleft hright
      have hi : i < k := by simpa using hleft
      rw [List.getElem_map, List.getElem_range, hmatches.files.backups, if_pos (by omega)]
      simp [show i < ledger.closed.length by omega]
  rw [hkept]
  simp [FileSink.generations, List.map_reverse, ← hbackups, hmatches.files.current, Function.comp_def]

theorem Matches.mem_backup {path : String} {maxFiles : Nat} {start : Files}
    {ledger : Ledger Record} {state : Files × FileSink Record}
    (hmatches : Matches path maxFiles start ledger state) (i : Nat) :
    backup path i ∈ state.1 ↔ 1 ≤ i ∧ i ≤ min ledger.closed.length maxFiles := by
  rw [← Finmap.lookup_isSome]
  cases i with
  | zero => simp [hmatches.files.zero]
  | succ i =>
      rw [hmatches.files.backups]
      by_cases hlt : i < maxFiles
      · rw [if_pos hlt]
        have hsome : (ledger.closed.map List.flatten)[i]?.isSome ↔ i < ledger.closed.length := by simp
        rw [hsome]
        omega
      · rw [if_neg hlt]
        have hnone : ¬((none : Option (List UInt8)).isSome = true) := Bool.false_ne_true
        exact iff_of_false hnone (by omega)

/-- Any run of records and restarts succeeds, and what is on disk at its end is the last files of the
ledger: the backups are exactly those numbered from one to some `k` that is at most `maxFiles`, read from
the oldest to the current file they are the last files of the ledger, each whole, and the ledger is the
logged records in order. A file is missing only where `maxFiles` newer ones were closed. -/
theorem retention {path : String} {maxFiles : Int} {files : Files} (hmax : 1 ≤ maxFiles)
    (hunused : Unused path files) (formatter : Record → List UInt8) (maxSize : UInt64)
    (ops : List (Op Record)) :
    ∃ (state : Files × FileSink Record) (ledger : List (List (List UInt8))) (k : Nat),
      execAll path maxFiles files formatter maxSize ops = some state ∧
      ledger = (run Ledger.step { formatter := formatter, maxSize := maxSize } ops).files ∧
      ledger.flatten = logged formatter ops ∧
      (k + 1 : Int) = min (ledger.length : Int) (maxFiles + 1) ∧
      (∀ i, backup path i ∈ state.1 ↔ 1 ≤ i ∧ i ≤ k) ∧
      (generations path k).map (fun name => state.1.lookup name) =
        (ledger.drop (ledger.length - (k + 1))).map (fun file => some file.flatten) ∧
      ∀ name, name ≠ path → (∀ i, name ≠ backup path i) →
        state.1.lookup name = files.lookup name := by
  obtain ⟨count, rfl⟩ := Int.eq_ofNat_of_zero_le (by omega : 0 ≤ maxFiles)
  obtain ⟨state, hrun, hmatches⟩ :=
    (hunused.new count formatter maxSize).foldlM (by omega) ops
  refine ⟨state, _, _, hrun, rfl, ?_, ?_, hmatches.mem_backup, hmatches.generations rfl,
    hmatches.files.others⟩
  · rw [Ledger.flatten_files]
    rfl
  · rw [Ledger.files_length]
    omega

/-- Four records and a restart on a sink with two backups, where all but the first record rotate: the
first file is gone, the others hold a record each. -/
theorem retention_smallRun :
    ∃ state : Files × FileSink UInt8,
      execAll "app.log" 2 ∅ (fun byte => [byte]) 3
          [.log 97, .log 98, .restart (fun byte => [byte, byte]) 2, .log 99, .log 100] = some state ∧
        (∀ i, backup "app.log" i ∈ state.1 ↔ 1 ≤ i ∧ i ≤ 2) ∧
        (generations "app.log" 2).map (fun name => state.1.lookup name) =
          [some [98, 10], some [99, 99, 10], some [100, 100, 10]] := by
  obtain ⟨state, ledger, k, hrun, hledger, -, hk, hbackups, hcontents, -⟩ :=
    retention (show 1 ≤ 2 by decide)
      ⟨Finmap.notMem_empty, fun _ => Finmap.notMem_empty⟩ (fun byte : UInt8 => [byte]) 3
      [.log 97, .log 98, .restart (fun byte => [byte, byte]) 2, .log 99, .log 100]
  have hfiles : ledger = [[[97, 10]], [[98, 10]], [[99, 99, 10]], [[100, 100, 10]]] :=
    hledger.trans (by decide)
  subst hfiles
  have hcount : (k + 1 : Int) = 3 := hk.trans (by decide)
  obtain rfl : k = 2 := by omega
  exact ⟨state, hrun, hbackups, hcontents⟩

end FileSink

end SoulCoreKit.Logging
