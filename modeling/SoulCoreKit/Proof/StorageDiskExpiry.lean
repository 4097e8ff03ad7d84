import SoulCoreKit.Storage.DiskCache

/-!
# The storage module's disk cache as a map with expiry

Where every file operation succeeds, the limit is never reached and distinct keys have distinct paths,
the disk is a function of what was last written to each key: the data file holds the value of the last
put, and the `.ttl` file the end of its own TTL. Four kinds of calls break this correspondence or do
not return, and the calls of the other kinds keep it.
-/

namespace SoulCoreKit.Storage.DiskCache

open Cache (Bytes SizeT)

variable {Key : Type} [DecidableEq Key] {hash : Key → List Char} {c : DiskCache Key} {key : Key}
  {ops : List (Op Key)} {value : Bytes} {ttl : Seconds} {env : Env} {passes : Nat → Env}

structure Env.Succeeds (env : Env) : Prop where
  mkpath : env.mkpath = true
  openData : env.openData = true
  openTtl : env.openTtl = true
  removeData : env.removeData = true
  removeTtl : env.removeTtl = true

/-- A call all of whose file operations succeed. -/
def Op.Reliable : Op Key → Prop
  | .put _ _ env _ => env.Succeeds
  | .putTtl _ _ _ env _ => env.Succeeds
  | .get _ env => env.Succeeds
  | .contains _ env => env.Succeeds
  | .remove _ env => env.Succeeds
  | .clear removable => ∀ path, removable path = true
  | .deleteData _ => False
  | .deleteTtl _ => False

def HasRoom (c : DiskCache Key) (key : Key) (value : Bytes) : Prop :=
  ¬ ((c.forgetSize key).currentSize + UInt64.ofNat value.length > c.maxSize ∧ c.maxSize > 0)

def Roomy (c : DiskCache Key) : Op Key → Prop
  | .put key value _ _ => c.HasRoom key value
  | .putTtl key value _ _ _ => c.HasRoom key value
  | _ => True

/-! ### What was last written -/

/-- A put with its own TTL, 0 for none, and its time; or the end of an entry. -/
inductive Write where
  | put (value : Bytes) (ttl : Seconds) (time : Seconds)
  | gone

def writeOf (key : Key) : Op Key → Option Write
  | .put other value env _ => if other = key then some (.put value 0 env.now) else none
  | .putTtl other value ttl env _ => if other = key then some (.put value ttl env.now) else none
  | .remove other _ => if other = key then some .gone else none
  | .clear _ => some .gone
  | _ => none

def lastWrite (key : Key) (ops : List (Op Key)) : Option Write :=
  (ops.filterMap (writeOf key)).getLast?

/-- The last write to the key is a put of the value whose own TTL has not elapsed. -/
def LivePut (ops : List (Op Key)) (key : Key) (value : Bytes) (now : Seconds) : Prop :=
  ∃ ttl time, lastWrite key ops = some (.put value ttl time) ∧ (ttl = 0 ∨ now ≤ time + ttl)

theorem lastWrite_concat (key : Key) (ops : List (Op Key)) (op : Op Key) :
    lastWrite key (ops ++ [op]) = (writeOf key op).or (lastWrite key ops) := by
  unfold lastWrite
  rw [List.filterMap_append, List.getLast?_append]
  cases hwrite : writeOf key op with
  | none => simp [hwrite]
  | some write => simp [hwrite]

/-- The data file and the `.ttl` file a last write asks for. -/
def Write.data : Option Write → Option Bytes
  | some (.put value _ _) => some value
  | _ => none

def Write.expiry : Option Write → Option (Option Int)
  | some (.put _ ttl time) => if ttl = 0 then none else some (some (time + ttl))
  | _ => none

def Mirrors (hash : Key → List Char) (ops : List (Op Key)) (c : DiskCache Key) : Prop :=
  ∀ key, c.files (getFilePath hash key) = Write.data (lastWrite key ops) ∧
    c.ttlFiles (getFilePath hash key) = Write.expiry (lastWrite key ops)

/-! ### What each call does to the disk -/

theorem forgetSize_disk (c : DiskCache Key) (key : Key) :
    (c.forgetSize key).files = c.files ∧ (c.forgetSize key).ttlFiles = c.ttlFiles := by
  unfold forgetSize
  cases c.entrySizes.lookup key with
  | none => exact ⟨rfl, rfl⟩
  | some size => exact ⟨rfl, rfl⟩

theorem forgetSize_maxSize (c : DiskCache Key) (key : Key) : (c.forgetSize key).maxSize = c.maxSize := by
  unfold forgetSize
  cases c.entrySizes.lookup key with
  | none => rfl
  | some size => rfl

theorem makeRoom_of_hasRoom (hroom : c.HasRoom key value) :
    (c.forgetSize key).makeRoom hash (UInt64.ofNat value.length) passes = c.forgetSize key := by
  unfold makeRoom
  rw [forgetSize_maxSize]
  exact if_neg hroom

/-- The `.ttl` files after a put: untouched without a TTL. -/
def ttlAfterPut (c : DiskCache Key) (path : CachePath) (ttl now : Seconds) :
    CachePath → Option (Option Int) :=
  if 0 < ttl then
    Function.update c.ttlFiles path (some (some (now + (Int32.ofInt ttl).toInt)))
  else
    c.ttlFiles

theorem putTtl_disk (hsucceeds : env.Succeeds) (hroom : c.HasRoom key value) (ttl : Seconds) :
    (c.putTtl hash key value ttl env passes).2.files =
        Function.update c.files (getFilePath hash key) (some value) ∧
      (c.putTtl hash key value ttl env passes).2.ttlFiles =
        c.ttlAfterPut (getFilePath hash key) ttl env.now := by
  obtain ⟨hfiles, httl⟩ := forgetSize_disk c key
  unfold putTtl
  simp only [hsucceeds.mkpath, hsucceeds.openData, not_true_eq_false, if_false,
    makeRoom_of_hasRoom hroom]
  unfold writeTtl recordSize ttlAfterPut
  rw [hsucceeds.openTtl]
  by_cases hpositive : 0 < ttl
  · simp [hpositive, hfiles, httl]
  · simp [hpositive, hfiles, httl]

theorem get_disk (hash : Key → List Char) (c : DiskCache Key) (key : Key) (env : Env) :
    (c.get hash key env).2.files = c.files ∧ (c.get hash key env).2.ttlFiles = c.ttlFiles := by
  unfold get
  dsimp only
  split
  · exact ⟨rfl, rfl⟩
  · split
    · exact ⟨rfl, rfl⟩
    · split
      · exact ⟨rfl, rfl⟩
      · exact ⟨rfl, rfl⟩

theorem eraseSize_disk (c : DiskCache Key) (key : Key) :
    (c.eraseSize key).files = c.files ∧ (c.eraseSize key).ttlFiles = c.ttlFiles := by
  unfold eraseSize
  cases c.entrySizes.lookup key with
  | none => exact ⟨rfl, rfl⟩
  | some size => exact ⟨rfl, rfl⟩

theorem remove_disk (hsucceeds : env.Succeeds) (key : Key) :
    (c.remove hash key env).2.files = Function.update c.files (getFilePath hash key) none ∧
      (c.remove hash key env).2.ttlFiles = Function.update c.ttlFiles (getFilePath hash key) none := by
  obtain ⟨hfiles, httl⟩ := eraseSize_disk c key
  rw [remove_snd]
  unfold removeTtl removeData unlist
  simp only [hsucceeds.removeTtl, hsucceeds.removeData, if_true, and_true]
  split
  · exact ⟨by rw [hfiles], by rw [httl]⟩
  case isFalse hmissing =>
    have hnone : c.files (getFilePath hash key) = none := by
      simpa [hfiles] using hmissing
    refine ⟨?_, by rw [httl]⟩
    rw [hfiles, ← hnone, Function.update_eq_self]

/-! ### Runs -/

/-- The calls that keep the correspondence and return. A put without a TTL must not meet the `.ttl` file
of an earlier put, a TTL must be a count of seconds that `int` holds, a get must not meet an expired
file, and `clear`, which lists the cache directory only, must find no data file. -/
def Kept (hash : Key → List Char) (c : DiskCache Key) : Op Key → Prop
  | .put key _ _ _ => c.ttlFiles (getFilePath hash key) = none
  | .putTtl key _ ttl _ _ =>
      0 ≤ ttl ∧ ttl < 2 ^ 31 ∧ (ttl = 0 → c.ttlFiles (getFilePath hash key) = none)
  | .get key env => (c.files (getFilePath hash key)).isSome → c.isExpired hash key env = false
  | .clear _ => ∀ key, c.files (getFilePath hash key) = none
  | _ => True

omit [DecidableEq Key] in
theorem ttlAfterPut_eq {ttl : Int} {path : CachePath} (hnonneg : 0 ≤ ttl) (hint : ttl < 2 ^ 31)
    (hstale : ttl = 0 → c.ttlFiles path = none) (now : Seconds) :
    c.ttlAfterPut path ttl now =
      Function.update c.ttlFiles path (if ttl = 0 then none else some (some (now + ttl))) := by
  unfold ttlAfterPut
  by_cases hzero : ttl = 0
  · have hnone : ¬ 0 < ttl := by omega
    rw [if_neg hnone, if_pos hzero, ← hstale hzero, Function.update_eq_self]
  · have hsome : 0 < ttl := by omega
    rw [if_pos hsome, if_neg hzero, Int32.toInt_ofInt_of_le (by omega) hint]

/-- A call that writes one key's files, where distinct keys have distinct paths. -/
theorem Mirrors.update (hmirrors : Mirrors hash ops c) (hdistinct : Function.Injective (getFilePath hash))
    {op : Op Key} {write : Write} (hop : ∀ other, writeOf other op = if key = other then some write else none)
    {d : DiskCache Key}
    (hfiles : d.files = Function.update c.files (getFilePath hash key) (Write.data (some write)))
    (httl : d.ttlFiles = Function.update c.ttlFiles (getFilePath hash key) (Write.expiry (some write))) :
    Mirrors hash (ops ++ [op]) d := by
  intro other
  rw [lastWrite_concat, hop, hfiles, httl]
  by_cases heq : key = other
  · subst heq
    simp
  · have hpath : getFilePath hash other ≠ getFilePath hash key := fun hsame => heq (hdistinct hsame).symm
    rw [if_neg heq, Option.none_or, Function.update_of_ne hpath, Function.update_of_ne hpath]
    exact hmirrors other

theorem Mirrors.same (hmirrors : Mirrors hash ops c) {op : Op Key} (hop : ∀ key, writeOf key op = none)
    {d : DiskCache Key} (hdisk : d.files = c.files ∧ d.ttlFiles = c.ttlFiles) :
    Mirrors hash (ops ++ [op]) d := by
  intro key
  rw [lastWrite_concat, hop, Option.none_or, hdisk.1, hdisk.2]
  exact hmirrors key

theorem Mirrors.putTtl (hmirrors : Mirrors hash ops c)
    (hdistinct : Function.Injective (getFilePath hash)) (hsucceeds : env.Succeeds)
    (hroom : c.HasRoom key value) (hnonneg : 0 ≤ ttl) (hint : ttl < 2 ^ 31)
    (hstale : ttl = 0 → c.ttlFiles (getFilePath hash key) = none) {op : Op Key}
    (hop : ∀ other, writeOf other op = if key = other then some (.put value ttl env.now) else none) :
    Mirrors hash (ops ++ [op]) (c.putTtl hash key value ttl env passes).2 := by
  obtain ⟨hfiles, httl⟩ := @putTtl_disk Key _ hash c key value env passes hsucceeds hroom ttl
  apply hmirrors.update hdistinct hop
  · exact hfiles
  · rw [httl, ttlAfterPut_eq hnonneg hint hstale]
    rfl

theorem Mirrors.clear (hmirrors : Mirrors hash ops c) {removable : CachePath → Bool}
    (hempty : ∀ key, c.files (getFilePath hash key) = none) :
    Mirrors hash (ops ++ [.clear removable]) (c.clear removable) := by
  intro key
  obtain ⟨hdata, hexpiry⟩ := hmirrors key
  rw [hempty key] at hdata
  rw [lastWrite_concat]
  constructor
  · change (if _ then none else c.files (getFilePath hash key)) = none
    rw [hempty key, ite_self]
  · change c.ttlFiles (getFilePath hash key) = none
    rw [hexpiry]
    cases hlast : lastWrite key ops with
    | none => rfl
    | some write =>
        rw [hlast] at hdata
        cases write with
        | put value ttl time => exact absurd hdata (by simp [Write.data])
        | gone => rfl

theorem Mirrors.step (hmirrors : Mirrors hash ops c) (hdistinct : Function.Injective (getFilePath hash))
    {op : Op Key} (hreliable : op.Reliable) (hroomy : c.Roomy op) (hkept : c.Kept hash op) :
    Mirrors hash (ops ++ [op]) (c.step hash op) := by
  cases op with
  | put key value env passes =>
      exact hmirrors.putTtl hdistinct hreliable hroomy le_rfl (by decide) (fun _ => hkept)
        (fun _ => rfl)
  | putTtl key value ttl env passes =>
      exact hmirrors.putTtl hdistinct hreliable hroomy hkept.1 hkept.2.1 hkept.2.2 (fun _ => rfl)
  | get key env => exact hmirrors.same (fun _ => rfl) (get_disk hash c key env)
  | contains key env => exact hmirrors.same (fun _ => rfl) ⟨rfl, rfl⟩
  | remove key env =>
      obtain ⟨hfiles, httl⟩ := @remove_disk Key _ hash c env hreliable key
      have hop : ∀ other, writeOf other (.remove key env) = if key = other then some .gone else none :=
        fun _ => rfl
      exact hmirrors.update hdistinct hop hfiles httl
  | clear removable => exact hmirrors.clear hkept
  | deleteData path => exact absurd hreliable id
  | deleteTtl path => exact absurd hreliable id

theorem mirrors_run (hdistinct : Function.Injective (getFilePath hash)) {start : DiskCache Key}
    (hstart : Mirrors hash [] start) (hreliable : ∀ op ∈ ops, op.Reliable)
    (hroomy : Along (step hash) Roomy start ops) (hkept : Along (step hash) (Kept hash) start ops) :
    Mirrors hash ops (run (step hash) start ops) := by
  induction ops using List.reverseRecOn with
  | nil => exact hstart
  | append_singleton ops op ih =>
      rw [along_concat] at hroomy hkept
      have hbefore := ih (fun other hother => hreliable other (List.mem_append_left _ hother))
        hroomy.1 hkept.1
      rw [run_concat]
      exact hbefore.step hdistinct (hreliable op (by simp)) hroomy.2 hkept.2

/-- What a get answers on a disk that holds what was last written. -/
theorem Mirrors.get (hmirrors : Mirrors hash ops c) (hsucceeds : env.Succeeds)
    (hkept : c.Kept hash (.get key env)) :
    (∀ value, (c.get hash key env).1 = some (.ok value) ↔ LivePut ops key value env.now) ∧
      ((∀ value, ¬ LivePut ops key value env.now) →
        (c.get hash key env).1 = some (.error ⟨.notFound, "Cache key not found"⟩)) := by
  obtain ⟨hdata, hexpiry⟩ := hmirrors key
  unfold LivePut
  unfold Kept at hkept
  unfold DiskCache.get
  dsimp only
  cases hlast : lastWrite key ops with
  | none =>
      rw [hlast] at hdata
      simp [hdata, Write.data]
  | some write =>
      rw [hlast] at hdata hexpiry
      cases write with
      | gone => simp [hdata, Write.data]
      | put stored ttl time =>
          have hfile : c.files (getFilePath hash key) = some stored := hdata
          have hfresh := hkept (by rw [hfile]; rfl)
          have hlive : ttl = 0 ∨ env.now ≤ time + ttl := by
            by_cases hzero : ttl = 0
            · exact Or.inl hzero
            · right
              unfold isExpired at hfresh
              rw [hexpiry] at hfresh
              simpa [Write.expiry, hzero, hsucceeds.openTtl] using hfresh
          constructor
          · intro value
            rw [hfile]
            simp only [hfresh, hsucceeds.openData]
            constructor
            · intro hvalue
              have hsame : stored = value := by simpa using hvalue
              exact ⟨ttl, time, by rw [hsame], hlive⟩
            · rintro ⟨ttl', time', hwrite, -⟩
              have hsame : stored = value := by
                injection hwrite with hwrite
                injection hwrite
              simp [hsame]
          · intro hnone
            exact absurd ⟨ttl, time, rfl, hlive⟩ (hnone stored)

/-- The SHA-256 digests of two keys. -/
def digestOf : Bool → List Char
  | false => "ca978112ca1bbdcafac231b39a23dc4da786eff8147c4e72b9807785afee48bb".toList
  | true => "3e23e8160039594a33894f6564e1b1348bbd7a0088d42c4acb73eeaed59c009d".toList

theorem digestOf_distinct : Function.Injective (getFilePath digestOf) := by
  intro first second hsame
  cases first <;> cases second
  · rfl
  · exact absurd hsame (by decide)
  · exact absurd hsame (by decide)
  · rfl

theorem succeeds_at (now : Seconds) : ({ now } : Env).Succeeds := ⟨rfl, rfl, rfl, rfl, rfl⟩

def expiringRun : List (Op Bool) :=
  [.putTtl false [7] 10 { now := 100 } (fun _ => {}), .remove true {}]

def clearedRun : List (Op Bool) := [.put false [7] {} (fun _ => {}), .clear (fun _ => true)]

end SoulCoreKit.Storage.DiskCache
