import Mathlib.Algebra.Group.Nat.Defs
import SoulCoreKit.Proof.LogRetention

/-!
# The size of the log's files

A sink counts what it writes itself. What stood in the file when the sink was opened is not counted, so that
the file passes the limit where the sink still finds room by its own count and there is none beside these
bytes. These are the only runs in which a file of the log is larger than the limit.
-/

namespace SoulCoreKit.Logging

/-- No file of the log is larger than the limit. -/
structure Bounded (path : String) (maxSize : UInt64) (files : Files) : Prop where
  current : ∀ content, files.lookup path = some content → content.length ≤ maxSize.toNat
  backups : ∀ i content, files.lookup (backup path i) = some content → content.length ≤ maxSize.toNat

theorem bounded_empty (path : String) (maxSize : UInt64) : Bounded path maxSize ∅ where
  current content hcontent := absurd hcontent (by simp)
  backups i content hcontent := absurd hcontent (by simp)

def Files.fileSize (files : Files) (path : String) : Nat := ((files.lookup path).getD []).length

theorem Files.fileSize_eq {files : Files} {path : String} {content : List UInt8}
    (hcontent : files.lookup path = some content) : files.fileSize path = content.length := by
  rw [fileSize, hcontent, Option.getD_some]

theorem bounded_fwrite_iff {path : String} {maxSize : UInt64} {files : Files} {content : List UInt8}
    (hbounded : Bounded path maxSize files) (hcontent : files.lookup path = some content)
    (bytes : List UInt8) :
    Bounded path maxSize (files.fwrite path bytes) ↔ content.length + bytes.length ≤ maxSize.toNat := by
  have hlookup := Files.lookup_fwrite hcontent bytes
  have hcurrent : (files.fwrite path bytes).lookup path = some (content ++ bytes) :=
    (hlookup path).trans (if_pos rfl)
  rw [← List.length_append]
  constructor
  · exact fun hwritten => hwritten.current _ hcurrent
  · intro hroom
    refine ⟨fun other hother => ?_, fun i other hother => hbounded.backups i other ?_⟩
    · obtain rfl := Option.some.inj (hcurrent.symm.trans hother)
      exact hroom
    · rwa [hlookup, if_neg (backup_ne_path path i)] at hother

namespace FileSink

variable {Record : Type} {path : String} {maxFiles : Int} {maxSize : UInt64} {files : Files}
  {state : Files × FileSink Record}

/-- The bytes in the file that the sink has not counted. -/
def uncounted (state : Files × FileSink Record) : Nat :=
  state.1.fileSize state.2.mFilePath - state.2.mCurrentSize.toNat

/-- A restart keeps the limit, and a record with its newline is not longer than it. -/
def Fitting (maxSize : UInt64) (state : Files × FileSink Record) : Op Record → Prop
  | .restart _ limit => limit = maxSize
  | .log record => (line state.2.mFormatter record).length ≤ maxSize.toNat

instance decidableFitting (maxSize : UInt64) (state : Files × FileSink Record) :
    ∀ op, Decidable (Fitting maxSize state op)
  | .restart _ limit => inferInstanceAs (Decidable (limit = maxSize))
  | .log record => inferInstanceAs (Decidable ((line state.2.mFormatter record).length ≤ maxSize.toNat))

/-- The sink rotates before the record, or the bytes it has not counted fit beside those it has and the
record. -/
def Room (state : Files × FileSink Record) : Op Record → Prop
  | .restart _ _ => True
  | .log record =>
      state.2.mCurrentSize + UInt64.ofNat (line state.2.mFormatter record).length > state.2.mMaxSize ∨
        uncounted state + (state.2.mCurrentSize.toNat + (line state.2.mFormatter record).length) ≤
          state.2.mMaxSize.toNat

/-! ### One step -/

/-- The sink has its file open, and counts no more than there is. -/
structure Counting (path : String) (maxSize : UInt64) (state : Files × FileSink Record) : Prop where
  samePath : state.2.mFilePath = path
  file : state.2.mFile = some path
  limit : state.2.mMaxSize = maxSize
  lookup : ∃ content, state.1.lookup path = some content ∧ state.2.mCurrentSize.toNat ≤ content.length

theorem counting_new (path : String) (formatter : Record → List UInt8) (maxSize : UInt64) (maxFiles : Int)
    (files : Files) : Counting path maxSize (new path formatter maxSize maxFiles files) := by
  have hlookup := Files.lookup_openAppendFile files path path
  exact ⟨rfl, rfl, rfl, _, hlookup.trans (if_pos rfl), Nat.zero_le _⟩

/-- Every content after the cascade was one before it. -/
theorem exists_of_shifted {n i : Nat} {contents : Nat → Option (List UInt8)} {content : List UInt8}
    (hshifted : shifted n contents i = some content) : ∃ j, contents j = some content := by
  unfold shifted at hshifted
  split_ifs at hshifted
  · exact ⟨i, hshifted⟩
  · obtain hmoved | ⟨-, hkept⟩ := Option.or_eq_some_iff.mp hshifted
    · exact ⟨n, hmoved⟩
    · exact ⟨n + 1, hkept⟩
  · exact ⟨i - 1, hshifted⟩

/-- A rotation only moves contents. -/
theorem Counting.rotateFile (hcounting : Counting path maxSize state) :
    ∃ files', state.2.rotateFile state.1 =
        some (files', { state.2 with mFile := some path, mCurrentSize := 0 }) ∧
      files'.lookup path = some [] ∧
      (Bounded path maxSize state.1 → Bounded path maxSize files') := by
  obtain ⟨rfl, -, -, content, hcontent, -⟩ := hcounting
  obtain ⟨files', hrotate, hcurrent, hbackups, -⟩ := rotateFile_eq hcontent
  refine ⟨files', hrotate, hcurrent, fun hbounded => ?_⟩
  refine ⟨fun other hother => ?_, fun i other hother => ?_⟩
  · obtain rfl := Option.some.inj (hcurrent.symm.trans hother)
    exact Nat.zero_le _
  · rw [hbackups] at hother
    split_ifs at hother
    · obtain rfl := Option.some.inj hother
      exact hbounded.current content hcontent
    · obtain ⟨j, hj⟩ := exists_of_shifted hother
      exact hbounded.backups j other hj

/-- The files and the sink after a write to a file with this content, and this count. -/
structure Wrote (path : String) (before : Files × FileSink Record) (files : Files) (content : List UInt8)
    (count : UInt64) (text : List UInt8) (after : Files × FileSink Record) : Prop where
  lookup : files.lookup path = some content
  files : after.1 = files.fwrite path text
  sink : after.2 =
    { before.2 with mFile := some path, mCurrentSize := count + UInt64.ofNat text.length }

/-- A call either writes to the file that is there, or rotates and writes to a new file. -/
theorem Counting.log_cases (hcounting : Counting path maxSize state) (record : Record) :
    let text := line state.2.mFormatter record
    let full := state.2.mCurrentSize + UInt64.ofNat text.length > state.2.mMaxSize
    ∃ state', state.2.log state.1 record = some state' ∧
      ((¬full ∧ ∃ content, state.2.mCurrentSize.toNat ≤ content.length ∧
          Wrote path state state.1 content state.2.mCurrentSize text state') ∨
        (full ∧ ∃ files', (Bounded path maxSize state.1 → Bounded path maxSize files') ∧
          Wrote path state files' [] 0 text state')) := by
  intro text full
  by_cases hfull : full
  · obtain ⟨files', hrotate, hcurrent, hbounded⟩ := hcounting.rotateFile
    have hlog := log_of_full hcounting.file record hfull hrotate rfl
    exact ⟨_, hlog, .inr ⟨hfull, files', hbounded, hcurrent, rfl, rfl⟩⟩
  · obtain ⟨content, hcontent, hcounted⟩ := hcounting.lookup
    have hlog := log_of_fits hcounting.file record hfull state.1
    refine ⟨_, hlog, .inl ⟨hfull, content, hcounted, hcontent, rfl, ?_⟩⟩
    rw [← hcounting.file]

theorem Wrote.current {after : Files × FileSink Record} {content text : List UInt8} {count : UInt64}
    (hwrote : Wrote path state files content count text after) :
    after.1.lookup path = some (content ++ text) := by
  rw [hwrote.files, Files.lookup_fwrite hwrote.lookup, if_pos rfl]

/-- What was counted before the write is counted after it, with the text. -/
theorem Wrote.counting {after : Files × FileSink Record} {content text : List UInt8} {count : UInt64}
    (hwrote : Wrote path state files content count text after) (hcounting : Counting path maxSize state)
    (hcount : count.toNat ≤ content.length) : Counting path maxSize after := by
  have hsink := hwrote.sink
  have hsum : (count + UInt64.ofNat text.length).toNat ≤ content.length + text.length := by
    simp only [UInt64.toNat_add, UInt64.toNat_ofNat']
    omega
  refine ⟨?_, ?_, ?_, _, hwrote.current, ?_⟩
  · rw [hsink, ← hcounting.samePath]
  · rw [hsink]
  · rw [hsink, ← hcounting.limit]
  · rw [hsink, List.length_append]
    exact hsum

theorem Wrote.bounded_iff {after : Files × FileSink Record} {content text : List UInt8} {count : UInt64}
    (hwrote : Wrote path state files content count text after) (hbounded : Bounded path maxSize files) :
    Bounded path maxSize after.1 ↔ content.length + text.length ≤ maxSize.toNat := by
  rw [hwrote.files]
  exact bounded_fwrite_iff hbounded hwrote.lookup text

theorem Counting.uncounted_eq (hcounting : Counting path maxSize state) {content : List UInt8}
    (hcontent : state.1.lookup path = some content) :
    uncounted state = content.length - state.2.mCurrentSize.toNat := by
  rw [uncounted, hcounting.samePath, Files.fileSize_eq hcontent]

theorem Counting.log (hcounting : Counting path maxSize state) {record : Record}
    (hfits : Fitting maxSize state (.log record)) :
    ∃ state', state.2.log state.1 record = some state' ∧ Counting path maxSize state' ∧
      (Bounded path maxSize state.1 → (Bounded path maxSize state'.1 ↔ Room state (.log record))) := by
  obtain ⟨state', hlog, ⟨hfull, content, hcounted, hwrote⟩ | ⟨hfull, files', hkept, hwrote⟩⟩ :=
    hcounting.log_cases record
  · refine ⟨state', hlog, hwrote.counting hcounting hcounted, fun hbounded => ?_⟩
    rw [hwrote.bounded_iff hbounded, Room, or_iff_right hfull, hcounting.limit,
      hcounting.uncounted_eq hwrote.lookup, ← Nat.add_assoc, Nat.sub_add_cancel hcounted]
  · refine ⟨state', hlog, hwrote.counting hcounting le_rfl, fun hbounded => ?_⟩
    rw [hwrote.bounded_iff (hkept hbounded), List.length_nil, Nat.zero_add]
    exact iff_of_true hfits (.inl hfull)

theorem bounded_openAppendFile (hbounded : Bounded path maxSize files) :
    Bounded path maxSize (files.openAppendFile path) := by
  have hlookup := Files.lookup_openAppendFile files path
  refine ⟨fun content hcontent => ?_, fun i content hcontent => hbounded.backups i content ?_⟩
  · rw [hlookup, if_pos rfl] at hcontent
    cases hpath : files.lookup path with
    | none =>
        obtain rfl : [] = content := by simpa [hpath] using hcontent
        exact Nat.zero_le _
    | some before =>
        obtain rfl : before = content := by simpa [hpath] using hcontent
        exact hbounded.current before hpath
  · rwa [hlookup, if_neg (backup_ne_path path i)] at hcontent

theorem Counting.exec (hcounting : Counting path maxSize state) (maxFiles : Int) {op : Op Record}
    (hfits : Fitting maxSize state op) :
    ∃ state', FileSink.exec path maxFiles state op = some state' ∧ Counting path maxSize state' ∧
      (Bounded path maxSize state.1 → (Bounded path maxSize state'.1 ↔ Room state op)) := by
  cases op with
  | log record => exact hcounting.log hfits
  | restart formatter limit =>
      obtain rfl : limit = maxSize := hfits
      refine ⟨_, rfl, counting_new path formatter limit maxFiles state.1, fun hbounded => ?_⟩
      exact iff_of_true (bounded_openAppendFile hbounded) trivial

/-! ### Whole runs -/

/-- The step, which does not fail. -/
def next (path : String) (maxFiles : Int) (state : Files × FileSink Record) (op : Op Record) :
    Files × FileSink Record :=
  (exec path maxFiles state op).getD state

theorem Counting.next (hcounting : Counting path maxSize state) (maxFiles : Int) {op : Op Record}
    (hfits : Fitting maxSize state op) :
    FileSink.exec path maxFiles state op = some (FileSink.next path maxFiles state op) ∧
      Counting path maxSize (FileSink.next path maxFiles state op) ∧
      (Bounded path maxSize state.1 →
        (Bounded path maxSize (FileSink.next path maxFiles state op).1 ↔ Room state op)) := by
  obtain ⟨state', hexec, hcounting', hbounded⟩ := hcounting.exec maxFiles hfits
  have hnext : FileSink.next path maxFiles state op = state' := by
    rw [FileSink.next, hexec, Option.getD_some]
  rw [hnext]
  exact ⟨hexec, hcounting', hbounded⟩

theorem Counting.foldlM (hcounting : Counting path maxSize state) {ops : List (Op Record)}
    (hfits : Along (FileSink.next path maxFiles) (Fitting maxSize) state ops) :
    ops.foldlM (FileSink.exec path maxFiles) state = some (run (FileSink.next path maxFiles) state ops) := by
  induction ops generalizing state with
  | nil => rfl
  | cons op ops ih =>
      obtain ⟨hexec, hcounting', -⟩ := hcounting.next maxFiles hfits.1
      rw [List.foldlM_cons, hexec]
      exact ih hcounting' hfits.2

/-- In a run of records that each fit into a file, no file is ever larger than the limit exactly where there
is room at every call. -/
theorem bounded_iff_room (path : String) (maxFiles : Int) (formatter : Record → List UInt8)
    {maxSize : UInt64} {files : Files} (hfiles : Bounded path maxSize files) {ops : List (Op Record)}
    (hops : Along (next path maxFiles) (Fitting maxSize) (new path formatter maxSize maxFiles files) ops) :
    (∀ n, ∃ state, execAll path maxFiles files formatter maxSize (ops.take n) = some state ∧
      Bounded path maxSize state.1) ↔
    Along (next path maxFiles) Room (new path formatter maxSize maxFiles files) ops := by
  have hstart := counting_new path formatter maxSize maxFiles files
  have hbounded : Bounded path maxSize (new path formatter maxSize maxFiles files).1 :=
    bounded_openAppendFile hfiles
  have hruns : ∀ n, execAll path maxFiles files formatter maxSize (ops.take n) =
      some (run (next path maxFiles) (new path formatter maxSize maxFiles files) (ops.take n)) :=
    fun n => hstart.foldlM (hops.take n)
  have halways := always_iff_along (P := fun state => Bounded path maxSize state.1) hops hstart hbounded
    (fun state op hcounting hfits => (hcounting.next maxFiles hfits).2.1)
    (fun state op hcounting hfits hbefore => (hcounting.next maxFiles hfits).2.2 hbefore)
  rw [← halways]
  refine forall_congr' fun n => ?_
  rw [hruns n]
  constructor
  · rintro ⟨state, hstate, hwithin⟩
    obtain rfl := Option.some.inj hstate
    exact hwithin
  · exact fun hwithin => ⟨_, rfl, hwithin⟩

theorem bounded_iff_room_restart :
    (∀ n, ∃ state : Files × FileSink UInt8,
      execAll "app.log" 1 ∅ (fun byte => [byte]) 5
        ([.log 97, .restart (fun byte => [byte]) 5, .log 98].take n) = some state ∧
      Bounded "app.log" 5 state.1) ↔
    Along (next "app.log" 1) Room (new "app.log" (fun byte : UInt8 => [byte]) 5 1 ∅)
      [.log 97, .restart (fun byte => [byte]) 5, .log 98] :=
  bounded_iff_room _ _ _ (bounded_empty _ _) (by decide +kernel)

/-- A process that logs on after another: two records of two bytes each under a limit of three. -/
theorem restart_exceeds :
    Along (next "app.log" 1) (Fitting 3) (new "app.log" (fun byte : UInt8 => [byte]) 3 1 ∅)
        [.log 97, .restart (fun byte => [byte]) 3, .log 98] ∧
      ∃ state : Files × FileSink UInt8,
        execAll "app.log" 1 ∅ (fun byte => [byte]) 3
          [.log 97, .restart (fun byte => [byte]) 3, .log 98] = some state ∧
        ¬Bounded "app.log" 3 state.1 := by
  refine ⟨by decide +kernel, _, rfl, fun hbounded => ?_⟩
  exact absurd (hbounded.current [97, 10, 98, 10] rfl) (by decide)

/-! ### Sinks on empty files -/

/-- A sink is opened on a file that is empty or missing. -/
def Fresh (path : String) (state : Files × FileSink Record) : Op Record → Prop
  | .restart _ _ => state.1.fileSize path = 0
  | .log _ => True

/-- The sink counts all there is, and the files are within the limit. -/
structure Exact (path : String) (maxSize : UInt64) (state : Files × FileSink Record) : Prop
    extends Counting path maxSize state where
  exact : state.1.fileSize path = state.2.mCurrentSize.toNat
  bounded : Bounded path maxSize state.1

theorem Exact.current_le (hexact : Exact path maxSize state) :
    state.2.mCurrentSize.toNat ≤ maxSize.toNat := by
  obtain ⟨content, hcontent, -⟩ := hexact.lookup
  rw [← hexact.exact, Files.fileSize_eq hcontent]
  exact hexact.bounded.current content hcontent

theorem Exact.room (hexact : Exact path maxSize state) (hlimit : maxSize.toNat < 2 ^ 63) {op : Op Record}
    (hfits : Fitting maxSize state op) : Room state op := by
  cases op with
  | restart formatter limit => trivial
  | log record =>
      have hlength : (line state.2.mFormatter record).length ≤ maxSize.toNat := hfits
      have hcurrent := hexact.current_le
      have hsum : (state.2.mCurrentSize + UInt64.ofNat (line state.2.mFormatter record).length).toNat =
          state.2.mCurrentSize.toNat + (line state.2.mFormatter record).length := by
        simp only [UInt64.toNat_add, UInt64.toNat_ofNat']
        omega
      have huncounted : uncounted state = 0 := by
        rw [uncounted, hexact.samePath, hexact.exact, Nat.sub_self]
      rw [Room, huncounted, Nat.zero_add, ← hsum, gt_iff_lt, UInt64.lt_iff_toNat_lt]
      exact Nat.lt_or_ge _ _

theorem Wrote.exact {after : Files × FileSink Record} {content text : List UInt8} {count : UInt64}
    (hwrote : Wrote path state files content count text after) (hcount : count.toNat = content.length)
    (hsmall : content.length + text.length < 2 ^ 64) :
    after.1.fileSize path = after.2.mCurrentSize.toNat := by
  rw [Files.fileSize_eq hwrote.current, hwrote.sink, List.length_append]
  simp only [UInt64.toNat_add, UInt64.toNat_ofNat', hcount]
  omega

theorem fileSize_openAppendFile (files : Files) (path : String) :
    (files.openAppendFile path).fileSize path = files.fileSize path := by
  rw [Files.fileSize, Files.lookup_openAppendFile, if_pos rfl, Option.getD_some, Files.fileSize]

theorem Exact.next (hexact : Exact path maxSize state) (hlimit : maxSize.toNat < 2 ^ 63) (maxFiles : Int)
    {op : Op Record} (hfits : Fitting maxSize state op) (hfresh : Fresh path state op) :
    Exact path maxSize (FileSink.next path maxFiles state op) := by
  obtain ⟨hexec, hcounting, hbounded⟩ := hexact.toCounting.next maxFiles hfits
  refine ⟨hcounting, ?_, (hbounded hexact.bounded).mpr (hexact.room hlimit hfits)⟩
  cases op with
  | restart formatter limit => exact (fileSize_openAppendFile state.1 path).trans hfresh
  | log record =>
      have hlength : (line state.2.mFormatter record).length ≤ maxSize.toNat := hfits
      have hcurrent := hexact.current_le
      obtain ⟨state', hlog, hcases⟩ := hexact.toCounting.log_cases record
      obtain rfl := Option.some.inj (hlog.symm.trans hexec)
      obtain ⟨-, content, -, hwrote⟩ | ⟨-, files', -, hwrote⟩ := hcases
      · have hcount := hexact.exact.symm.trans (Files.fileSize_eq hwrote.lookup)
        exact hwrote.exact hcount (by omega)
      · exact hwrote.exact rfl (by rw [List.length_nil]; omega)

/-- Sinks that are all opened on empty files have room at every call. -/
theorem room_of_fresh (path : String) (maxFiles : Int) (formatter : Record → List UInt8) {maxSize : UInt64}
    (hlimit : maxSize.toNat < 2 ^ 63) {files : Files} (hfiles : Bounded path maxSize files)
    (hempty : files.fileSize path = 0) {ops : List (Op Record)}
    (hops : Along (next path maxFiles) (Fitting maxSize) (new path formatter maxSize maxFiles files) ops)
    (hfresh : Along (next path maxFiles) (Fresh path) (new path formatter maxSize maxFiles files) ops) :
    Along (next path maxFiles) Room (new path formatter maxSize maxFiles files) ops := by
  refine (hops.and hfresh).of_invariant (I := Exact path maxSize) ?_ ?_ ?_
  · exact {
      toCounting := counting_new path formatter maxSize maxFiles files
      exact := (fileSize_openAppendFile files path).trans hempty
      bounded := bounded_openAppendFile hfiles }
  · exact fun state op hexact hcond => hexact.next hlimit maxFiles hcond.1 hcond.2
  · exact fun state op hexact hcond => hexact.room hlimit hcond.1

end FileSink

end SoulCoreKit.Logging
