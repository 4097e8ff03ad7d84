import SoulCoreKit.Proof.StorageDiskAccounting
import SoulCoreKit.Proof.StorageDiskExpiry

/-!
# Where the storage module's eviction stops

A put of `sc::DiskCache` that finds no room calls `evict`, and `evict` does not know for what: it
deletes from the back of the list until it has deleted an entry that has expired. So what it leaves is
the part of the list before the last expired entry, or nothing. That is what the put needs when the
last expired entry happens to be the one with which the room begins to suffice, or when none has expired
and every entry must go.
-/

namespace SoulCoreKit.Storage.DiskCache

open Cache (Bytes SizeT)
open UnorderedMap

variable {Key : Type} [DecidableEq Key] {hash : Key → List Char} {c : DiskCache Key} {key : Key}
  {env : Env} {passes : Nat → Env}

/-- The keys a put may evict, the one used last first. -/
def others (c : DiskCache Key) (key : Key) : List Key := c.lruList.filter (· ≠ key)

/-- The bytes of the entries of the keys. -/
def entryBytes (c : DiskCache Key) (keys : List Key) : Nat :=
  (keys.map (weightAt (fun _ size => size.toNat) c.entrySizes)).sum

/-- The value fits beside the first of the other entries. -/
def RoomBeside (c : DiskCache Key) (key : Key) (value : Bytes) (kept : Nat) : Prop :=
  c.entryBytes ((c.others key).take kept) + value.length ≤ c.maxSize.toNat

instance (c : DiskCache Key) (key : Key) (value : Bytes) (kept : Nat) :
    Decidable (c.RoomBeside key value kept) :=
  inferInstanceAs (Decidable (_ ≤ _))

/-- The pass of the eviction over the key at the position finds it expired. -/
def ExpiresAt (hash : Key → List Char) (passes : Nat → Env) (c : DiskCache Key) (keys : List Key)
    (position : Nat) : Prop :=
  ∃ key, keys[position]? = some key ∧ c.isExpired hash key (passes (position + 1)) = true

/-- The last entry found expired is the one at the position, or none is and the position is the first. -/
structure StopsAt (hash : Key → List Char) (passes : Nat → Env) (c : DiskCache Key) (keys : List Key)
    (position : Nat) : Prop where
  expires : position = 0 ∨ ExpiresAt hash passes c keys position
  live : ∀ later, position < later → ¬ ExpiresAt hash passes c keys later

/-- The counter is within the limit, and the entries removed are the shortest suffix of the list that
makes room. -/
structure EvictsShortest (c : DiskCache Key) (key : Key) (value : Bytes) (after : DiskCache Key) :
    Prop where
  size_le : after.currentSize ≤ c.maxSize
  shortest : ∃ kept ≤ (c.others key).length,
    (∀ other, other ≠ key → (other ∈ after.entrySizes ↔ other ∈ (c.others key).take kept)) ∧
      c.RoomBeside key value kept ∧
        ∀ more ≤ (c.others key).length, c.RoomBeside key value more → more ≤ kept

/-- There is room beside all other entries; or the pass with which the room begins to suffice is the
first over an expired entry, or the last one over no expired entry before it. -/
def StopsWithRoom (hash : Key → List Char) (passes : Nat → Env) (c : DiskCache Key) (key : Key)
    (value : Bytes) : Prop :=
  c.RoomBeside key value (c.others key).length ∨
    c.entryBytes (c.others key) + value.length < 2 ^ 64 ∧
      ∃ kept < (c.others key).length, c.RoomBeside key value kept ∧
        ¬ c.RoomBeside key value (kept + 1) ∧ StopsAt hash passes c (c.others key) kept

/-! ### What the loop leaves -/

theorem evictKey_lruList (hash : Key → List Char) (c : DiskCache Key) (key : Key) (env : Env) :
    (c.evictKey hash key env).lruList = c.lruList.dropLast := by
  obtain ⟨files, ttlFiles, heq⟩ := evictKey_eq hash c key env
  rw [heq]
  unfold eraseSize
  split <;> rfl

theorem evictKey_ttlFiles (c : DiskCache Key) {key : Key} {path : CachePath}
    (hne : path ≠ getFilePath hash key) (env : Env) :
    (c.evictKey hash key env).ttlFiles path = c.ttlFiles path := by
  simp only [evictKey, (eraseSize_disk _ key).2, removeTtl, removeData]
  split_ifs <;> simp [hne]

theorem evictKey_isExpired (c : DiskCache Key) {key other : Key}
    (hne : getFilePath hash other ≠ getFilePath hash key) (env now : Env) :
    (c.evictKey hash key env).isExpired hash other now = c.isExpired hash other now := by
  unfold isExpired
  rw [evictKey_ttlFiles c hne]

/-- A pass over a live entry changes nothing for the passes after it. -/
theorem expiresAt_evictKey_iff {last : Key} (hlast : c.lruList.getLast? = some last)
    (hpaths : (c.lruList.map (getFilePath hash)).Nodup)
    (hlive : c.isExpired hash last (passes c.lruList.length) = false) (env : Env) (position : Nat) :
    ExpiresAt hash passes (c.evictKey hash last env) c.lruList.dropLast position ↔
      ExpiresAt hash passes c c.lruList position := by
  obtain ⟨rest, hlist⟩ := List.getLast?_eq_some_iff.mp hlast
  unfold ExpiresAt
  rw [hlist, List.map_append, List.nodup_append] at hpaths
  rw [hlist, List.length_append, List.length_singleton] at hlive
  rw [hlist, List.dropLast_concat]
  rcases Nat.lt_trichotomy position rest.length with hlt | heq | hgt
  · rw [List.getElem?_append_left hlt]
    constructor
    · rintro ⟨other, hother, hexpired⟩
      have hne : getFilePath hash other ≠ getFilePath hash last :=
        hpaths.2.2 _ (List.mem_map_of_mem (List.mem_of_getElem? hother)) _ (by simp)
      rw [evictKey_isExpired c hne] at hexpired
      exact ⟨other, hother, hexpired⟩
    · rintro ⟨other, hother, hexpired⟩
      have hne : getFilePath hash other ≠ getFilePath hash last :=
        hpaths.2.2 _ (List.mem_map_of_mem (List.mem_of_getElem? hother)) _ (by simp)
      rw [← evictKey_isExpired c hne env] at hexpired
      exact ⟨other, hother, hexpired⟩
  · subst heq
    simp [hlive]
  · rw [List.getElem?_eq_none hgt.le, List.getElem?_eq_none (by simpa using Nat.succ_le_of_lt hgt)]
    simp

omit [DecidableEq Key] in
theorem StopsAt.unique {keys : List Key} {position position' : Nat}
    (hstops : StopsAt hash passes c keys position) (hstops' : StopsAt hash passes c keys position') :
    position = position' := by
  rcases Nat.lt_trichotomy position position' with hless | heq | hmore
  · exact absurd (hstops'.expires.resolve_left (by omega)) (hstops.live position' hless)
  · exact heq
  · exact absurd (hstops.expires.resolve_left (by omega)) (hstops'.live position hmore)

omit [DecidableEq Key] in
/-- A list is not left at a position behind its end. -/
theorem StopsAt.lt_length {keys : List Key} {position : Nat}
    (hstops : StopsAt hash passes c keys position) (hne : keys ≠ []) : position < keys.length := by
  rcases hstops.expires with rfl | ⟨other, hother, -⟩
  · exact List.length_pos_iff.mpr hne
  · exact (List.getElem?_eq_some_iff.mp hother).1

/-- What is left is the part of the list before its last expired entry, or nothing. -/
def LeavesFront (hash : Key → List Char) (passes : Nat → Env) (c : DiskCache Key)
    (left : List Key) : Prop :=
  ∃ kept, left = c.lruList.take kept ∧ StopsAt hash passes c c.lruList kept

omit [DecidableEq Key] in
theorem leavesFront_nil (hnil : c.lruList = []) : LeavesFront hash passes c c.lruList := by
  refine ⟨0, ?_, Or.inl rfl, ?_⟩
  · rw [List.take_zero]
    exact hnil
  · rintro position - ⟨other, hother, -⟩
    rw [hnil] at hother
    exact absurd hother (by simp)

omit [DecidableEq Key] in
/-- The pass over an expired entry is the last one. -/
theorem leavesFront_of_expired {last : Key} (hlast : c.lruList.getLast? = some last)
    (hexpired : c.isExpired hash last (passes c.lruList.length) = true) :
    LeavesFront hash passes c c.lruList.dropLast := by
  have hpos : 0 < c.lruList.length := List.length_pos_of_mem (List.mem_of_getLast? hlast)
  refine ⟨c.lruList.length - 1, List.dropLast_eq_take, Or.inr ⟨last, ?_, ?_⟩, ?_⟩
  · rwa [List.getLast?_eq_getElem?] at hlast
  · rwa [Nat.sub_add_cancel hpos]
  · rintro position hposition ⟨other, hother, -⟩
    have hlt := (List.getElem?_eq_some_iff.mp hother).1
    omega

/-- The pass over a live entry leaves the decision to the ones after it. -/
theorem leavesFront_of_live {last : Key} (hlast : c.lruList.getLast? = some last)
    (hpaths : (c.lruList.map (getFilePath hash)).Nodup)
    (hlive : c.isExpired hash last (passes c.lruList.length) = false) {left : List Key}
    (hleft : LeavesFront hash passes (c.evictKey hash last (passes c.lruList.length)) left) :
    LeavesFront hash passes c left := by
  have hsame := expiresAt_evictKey_iff hlast hpaths hlive (passes c.lruList.length)
  obtain ⟨kept, rfl, hexpires, hlater⟩ := hleft
  rw [evictKey_lruList] at hexpires hlater ⊢
  simp only [hsame] at hexpires hlater
  refine ⟨kept, ?_, hexpires, hlater⟩
  have hle : kept ≤ c.lruList.length - 1 := by
    have hne : c.lruList ≠ [] := List.ne_nil_of_mem (List.mem_of_getLast? hlast)
    have hlt := StopsAt.lt_length ⟨hexpires, hlater⟩ hne
    omega
  rw [List.dropLast_eq_take, List.take_take, Nat.min_eq_left hle]

theorem evictLoop_leavesFront (passes : Nat → Env)
    (hpaths : (c.lruList.map (getFilePath hash)).Nodup) {bound : Nat}
    (hbound : c.lruList.length ≤ bound) :
    LeavesFront hash passes c (evictLoop hash passes bound c).lruList := by
  induction bound generalizing c with
  | zero => exact leavesFront_nil (List.eq_nil_of_length_eq_zero (Nat.le_zero.mp hbound))
  | succ bound ih =>
      unfold evictLoop
      cases hlast : c.lruList.getLast? with
      | none => exact leavesFront_nil (List.getLast?_eq_none_iff.mp hlast)
      | some last =>
          have hlist := evictKey_lruList hash c last (passes c.lruList.length)
          dsimp only
          cases hexpired : c.isExpired hash last (passes c.lruList.length) with
          | true =>
              rw [if_pos rfl, hlist]
              exact leavesFront_of_expired hlast hexpired
          | false =>
              rw [if_neg Bool.false_ne_true]
              apply leavesFront_of_live hlast hpaths hexpired
              apply ih
              · rw [hlist]
                exact hpaths.sublist ((List.dropLast_sublist _).map _)
              · rw [hlist, List.length_dropLast]
                omega

/-! ### The counter and the entries of what is left -/

theorem lookup_of_lookup_evictKey {other : Key} {size : SizeT}
    (hlookup : (c.evictKey hash key env).entrySizes.lookup other = some size) :
    c.entrySizes.lookup other = some size := by
  obtain ⟨files, ttlFiles, heq⟩ := evictKey_eq hash c key env
  rw [heq] at hlookup
  unfold eraseSize at hlookup
  split at hlookup
  · exact hlookup
  · exact lookup_of_lookup_erase hlookup

theorem lookup_of_lookup_evictLoop {bound : Nat} {other : Key} {size : SizeT}
    (hlookup : (evictLoop hash passes bound c).entrySizes.lookup other = some size) :
    c.entrySizes.lookup other = some size := by
  induction bound generalizing c with
  | zero => exact hlookup
  | succ bound ih =>
      unfold evictLoop at hlookup
      cases hlast : c.lruList.getLast? with
      | none =>
          rw [hlast] at hlookup
          exact hlookup
      | some last =>
          rw [hlast] at hlookup
          dsimp only at hlookup
          split at hlookup
          · exact lookup_of_lookup_evictKey hlookup
          · exact lookup_of_lookup_evictKey (ih hlookup)

theorem lookup_of_lookup_makeRoom {size : SizeT} {other : Key} {found : SizeT}
    (hlookup : (c.makeRoom hash size passes).entrySizes.lookup other = some found) :
    c.entrySizes.lookup other = some found := by
  unfold makeRoom evict at hlookup
  split at hlookup
  · exact lookup_of_lookup_evictLoop hlookup
  · exact hlookup

theorem Owing.mem_lruList_iff {other : Key} (howing : c.Owing key) (hne : other ≠ key) :
    other ∈ c.lruList ↔ other ∈ c.entrySizes := by
  rw [Balanced.mem_lruList_iff howing, Finmap.mem_erase]
  exact and_iff_right hne

theorem Owing.currentSize_eq_entryBytes (howing : c.Owing key) :
    c.currentSize.toNat = c.entryBytes c.lruList := by
  have hsum := howing.enumerates.sum_weightAt (fun _ size => size.toNat)
  rw [howing.currentSize_eq]
  unfold sizeSum entryBytes
  rw [← hsum]
  congr 1
  apply List.map_congr_left
  intro other hother
  rw [weightAt_erase_of_ne]
  exact (Finmap.mem_erase.mp ((Balanced.mem_lruList_iff howing).mp hother)).1

theorem others_nodup (haccounted : c.Accounted) (key : Key) : (c.others key).Nodup :=
  haccounted.enumerates.1.filter _

theorem forgetSize_lruList (haccounted : c.Accounted) (key : Key) :
    (c.forgetSize key).lruList = c.others key := by
  unfold forgetSize
  cases hlookup : c.entrySizes.lookup key with
  | none =>
      have hfresh : key ∉ c.lruList := by
        rw [haccounted.mem_lruList_iff, ← Finmap.lookup_eq_none]
        exact hlookup
      refine (List.filter_eq_self.mpr ?_).symm
      rintro other hother
      have hne : other ≠ key := by
        rintro rfl
        exact hfresh hother
      simpa using hne
  | some size => rfl

theorem forgetSize_isExpired (c : DiskCache Key) (key other : Key) (now : Env) :
    (c.forgetSize key).isExpired hash other now = c.isExpired hash other now := by
  unfold isExpired
  rw [(forgetSize_disk c key).2]

/-! ### The put -/

/-- The state a put writes its file in. -/
def roomed (hash : Key → List Char) (passes : Nat → Env) (c : DiskCache Key) (key : Key)
    (value : Bytes) : DiskCache Key :=
  (c.forgetSize key).makeRoom hash (UInt64.ofNat value.length) passes

/-- A put that gets as far as its file leaves the other entries as they are, and the counter with or
without the new size. -/
theorem putTtl_entries (hash : Key → List Char) (passes : Nat → Env) (hmkpath : env.mkpath = true)
    (c : DiskCache Key) (key : Key) (value : Bytes) (ttl : Seconds) :
    (∀ other, other ≠ key → (other ∈ (c.putTtl hash key value ttl env passes).2.entrySizes ↔
      other ∈ (c.roomed hash passes key value).entrySizes)) ∧
      ((c.putTtl hash key value ttl env passes).2.currentSize =
          (c.roomed hash passes key value).currentSize ∨
        (c.putTtl hash key value ttl env passes).2.currentSize =
          (c.roomed hash passes key value).currentSize + UInt64.ofNat value.length) := by
  unfold putTtl roomed
  simp only [hmkpath, not_true_eq_false, if_false]
  cases env.openData with
  | false => exact ⟨fun _ _ => Iff.rfl, Or.inl rfl⟩
  | true =>
      simp only [not_true_eq_false, if_false]
      obtain ⟨ttlFiles, hwrite⟩ := writeTtl_eq
        { (c.forgetSize key).makeRoom hash (UInt64.ofNat value.length) passes with
          files := Function.update
            ((c.forgetSize key).makeRoom hash (UInt64.ofNat value.length) passes).files
            (getFilePath hash key) (some value) } (getFilePath hash key) ttl env
      rw [hwrite]
      refine ⟨?_, Or.inr rfl⟩
      intro other hne
      unfold recordSize
      rw [Finmap.mem_insert]
      exact or_iff_right hne

theorem take_injective {keys : List Key} (hnodup : keys.Nodup) {kept more : Nat}
    (hkept : kept ≤ keys.length) (hmore : more ≤ keys.length)
    (hsame : ∀ other ∈ keys, other ∈ keys.take kept ↔ other ∈ keys.take more) : kept = more := by
  have hsets : (keys.take kept).toFinset = (keys.take more).toFinset := by
    ext other
    rw [List.mem_toFinset, List.mem_toFinset]
    constructor
    · intro hother
      exact (hsame other (List.mem_of_mem_take hother)).mp hother
    · intro hother
      exact (hsame other (List.mem_of_mem_take hother)).mpr hother
  have hcards := congrArg Finset.card hsets
  rw [List.toFinset_card_of_nodup (hnodup.sublist (List.take_sublist _ _)),
    List.toFinset_card_of_nodup (hnodup.sublist (List.take_sublist _ _)), List.length_take,
    List.length_take] at hcards
  omega

theorem RoomBeside.mono {value : Bytes} {kept more : Nat} (hroom : c.RoomBeside key value more)
    (hle : kept ≤ more) : c.RoomBeside key value kept := by
  have hsum : c.entryBytes ((c.others key).take kept) ≤ c.entryBytes ((c.others key).take more) := by
    apply List.Sublist.sum_le_sum
    · exact (List.take_sublist_take_left hle).map _
    · intro size _
      exact Nat.zero_le size
  unfold RoomBeside at hroom ⊢
  omega

section Room

variable {value : Bytes} {kept : Nat} (haccounted : c.Accounted)
  (hleft : (c.roomed hash passes key value).lruList = (c.others key).take kept)

include haccounted hleft

theorem roomed_currentSize :
    (c.roomed hash passes key value).currentSize.toNat = c.entryBytes ((c.others key).take kept) := by
  have howing : (c.roomed hash passes key value).Owing key :=
    ((haccounted.owing_forgetSize key).makeRoom _ passes).owing
  rw [howing.currentSize_eq_entryBytes, ← hleft]
  unfold entryBytes
  congr 1
  apply List.map_congr_left
  intro other hother
  obtain ⟨hne, hmem⟩ := Finmap.mem_erase.mp ((Balanced.mem_lruList_iff howing).mp hother)
  obtain ⟨size, hsize⟩ := Finmap.mem_iff.mp hmem
  have hbefore : c.entrySizes.lookup other = some size := by
    have hforgotten := lookup_of_lookup_makeRoom hsize
    rwa [forgetSize_entrySizes] at hforgotten
  rw [weightAt_of_lookup _ hsize, weightAt_of_lookup _ hbefore]

/-- A put that leaves so many of the other entries evicts the shortest suffix exactly when they leave
room and no more do. -/
theorem evictsShortest_iff_kept (hsize : value.length ≤ c.maxSize.toNat)
    (hkept : kept ≤ (c.others key).length) (hmkpath : env.mkpath = true) (ttl : Seconds) :
    c.EvictsShortest key value (c.putTtl hash key value ttl env passes).2 ↔
      c.RoomBeside key value kept ∧
        ∀ more ≤ (c.others key).length, c.RoomBeside key value more → more ≤ kept := by
  obtain ⟨hentries, hcounter⟩ := putTtl_entries hash passes hmkpath c key value ttl
  have howing : (c.roomed hash passes key value).Owing key :=
    ((haccounted.owing_forgetSize key).makeRoom _ passes).owing
  have hothers : ∀ other, other ≠ key →
      (other ∈ (c.putTtl hash key value ttl env passes).2.entrySizes ↔
        other ∈ (c.others key).take kept) := by
    intro other hne
    rw [hentries other hne, ← howing.mem_lruList_iff hne, hleft]
  constructor
  · rintro ⟨-, kept', hkept', hsame, hroom, hmost⟩
    have heq : kept' = kept := by
      apply take_injective (others_nodup haccounted key) hkept' hkept
      intro other hother
      have hne : other ≠ key := by simpa using (List.mem_filter.mp hother).2
      rw [← hsame other hne, hothers other hne]
    subst heq
    exact ⟨hroom, hmost⟩
  · rintro ⟨hroom, hmost⟩
    refine ⟨?_, kept, hkept, hothers, hroom, hmost⟩
    have hbytes := roomed_currentSize haccounted hleft
    have hlimit := c.maxSize.toNat_lt
    have hsmall : value.length < 2 ^ 64 := by omega
    have hlength : (UInt64.ofNat value.length).toNat = value.length :=
      UInt64.toNat_ofNat_of_lt' hsmall
    unfold RoomBeside at hroom
    rw [UInt64.le_iff_toNat_le]
    rcases hcounter with hsame | hadded
    · rw [hsame]
      omega
    · rw [hadded, UInt64.toNat_add, hlength, hbytes, Nat.mod_eq_of_lt (by omega)]
      omega

end Room

/-- A put evicts when the bytes of the other entries and its own, which do not wrap around, exceed the
limit. -/
theorem roomed_eq (hash : Key → List Char) (passes : Nat → Env) (key : Key)
    (haccounted : c.Accounted) {value : Bytes} (hsize : value.length ≤ c.maxSize.toNat)
    (hpos : 0 < c.maxSize) :
    c.roomed hash passes key value =
      if c.entryBytes (c.others key) + value.length < 2 ^ 64 ∧
          ¬ c.RoomBeside key value (c.others key).length then
        (c.forgetSize key).evict hash passes
      else
        c.forgetSize key := by
  have hcounter : (c.forgetSize key).currentSize.toNat = c.entryBytes (c.others key) := by
    rw [(haccounted.owing_forgetSize key).currentSize_eq_entryBytes, forgetSize_lruList haccounted]
    unfold entryBytes
    rw [forgetSize_entrySizes]
  have hlimit := c.maxSize.toNat_lt
  have hbytes := (c.forgetSize key).currentSize.toNat_lt
  have hsmall : value.length < 2 ^ 64 := by omega
  have hlength : (UInt64.ofNat value.length).toNat = value.length :=
    UInt64.toNat_ofNat_of_lt' hsmall
  have htest : ((c.forgetSize key).currentSize + UInt64.ofNat value.length >
      (c.forgetSize key).maxSize ∧ (c.forgetSize key).maxSize > 0) ↔
        c.entryBytes (c.others key) + value.length < 2 ^ 64 ∧
          ¬ c.RoomBeside key value (c.others key).length := by
    unfold RoomBeside
    rw [forgetSize_maxSize, and_iff_left hpos, gt_iff_lt, UInt64.lt_iff_toNat_lt, UInt64.toNat_add,
      hlength, List.take_length, not_le, ← hcounter]
    by_cases hwraps : (c.forgetSize key).currentSize.toNat + value.length < 2 ^ 64
    · rw [Nat.mod_eq_of_lt hwraps, and_iff_right hwraps]
    · refine iff_of_false ?_ (fun h => hwraps h.1)
      rw [Nat.mod_eq_sub_mod (not_lt.mp hwraps), Nat.mod_eq_of_lt (by omega)]
      omega
  unfold roomed makeRoom
  simp only [htest]

/-- What a put that evicts leaves of the other keys. -/
theorem exists_kept (haccounted : c.Accounted) (hpaths : (c.lruList.map (getFilePath hash)).Nodup)
    {value : Bytes} (hsize : value.length ≤ c.maxSize.toNat) (hpos : 0 < c.maxSize)
    (hwhole : c.entryBytes (c.others key) + value.length < 2 ^ 64)
    (hfull : ¬ c.RoomBeside key value (c.others key).length) :
    ∃ kept < (c.others key).length,
      (c.roomed hash passes key value).lruList = (c.others key).take kept ∧
        StopsAt hash passes c (c.others key) kept := by
  have hlist := forgetSize_lruList haccounted key
  have hpaths' : ((c.forgetSize key).lruList.map (getFilePath hash)).Nodup := by
    rw [hlist]
    exact hpaths.sublist (List.filter_sublist.map _)
  have hne : c.others key ≠ [] := by
    intro hnil
    refine hfull ?_
    unfold RoomBeside entryBytes
    rw [hnil]
    simpa using hsize
  have hroomed := roomed_eq hash passes key haccounted hsize hpos
  rw [if_pos ⟨hwhole, hfull⟩] at hroomed
  obtain ⟨kept, hleft, hexpires, hlater⟩ := evictLoop_leavesFront passes hpaths' le_rfl
  rw [hlist] at hleft hexpires hlater
  simp only [ExpiresAt, forgetSize_isExpired] at hexpires hlater
  have hstops : StopsAt hash passes c (c.others key) kept := ⟨hexpires, hlater⟩
  refine ⟨kept, hstops.lt_length hne, ?_, hstops⟩
  rw [hroomed, ← hleft, ← hlist]
  rfl

/-- In a state whose accounts are right and whose keys have different files, a put of a value within the
limit evicts the shortest suffix of the list that makes room exactly when the first pass over an
expired entry, or the last pass, is the one with which the room begins to suffice. -/
theorem evictsShortest_iff_stopsWithRoom (haccounted : c.Accounted)
    (hpaths : (c.lruList.map (getFilePath hash)).Nodup) {value : Bytes}
    (hsize : value.length ≤ c.maxSize.toNat) (hpos : 0 < c.maxSize) (hmkpath : env.mkpath = true)
    (ttl : Seconds) :
    c.EvictsShortest key value (c.putTtl hash key value ttl env passes).2 ↔
      StopsWithRoom hash passes c key value := by
  by_cases hevicts : c.entryBytes (c.others key) + value.length < 2 ^ 64 ∧
      ¬ c.RoomBeside key value (c.others key).length
  · obtain ⟨hwhole, hfull⟩ := hevicts
    obtain ⟨kept, hlt, hleft, hstops⟩ := exists_kept haccounted hpaths hsize hpos hwhole hfull
    rw [evictsShortest_iff_kept haccounted hleft hsize hlt.le hmkpath ttl]
    constructor
    · rintro ⟨hroom, hmost⟩
      refine Or.inr ⟨hwhole, kept, hlt, hroom, ?_, hstops⟩
      intro hmore
      have hle := hmost (kept + 1) hlt hmore
      omega
    · rintro (hroom | ⟨-, kept', hlt', hroom, hshort, hstops'⟩)
      · exact absurd hroom hfull
      · obtain rfl := hstops.unique hstops'
        refine ⟨hroom, ?_⟩
        intro more _ hmore
        by_contra hgt
        exact hshort (hmore.mono (by omega))
  · have hroomed := roomed_eq hash passes key haccounted hsize hpos
    rw [if_neg hevicts] at hroomed
    have hleft : (c.roomed hash passes key value).lruList =
        (c.others key).take (c.others key).length := by
      rw [hroomed, forgetSize_lruList haccounted, List.take_length]
    rw [evictsShortest_iff_kept haccounted hleft hsize le_rfl hmkpath ttl]
    constructor
    · rintro ⟨hroom, -⟩
      exact Or.inl hroom
    · rintro (hroom | ⟨hwhole, kept, hlt, -, hshort, -⟩)
      · exact ⟨hroom, fun more hmore _ => hmore⟩
      · refine absurd ⟨hwhole, ?_⟩ hevicts
        intro hroom
        exact hshort (hroom.mono hlt)

/-! ### An eviction that stops too early -/

/-- The SHA-256 digests of three keys. -/
def digestOfThree : Option Bool → List Char
  | none => "2e7d2c03a9507ae265ecf5b5356885a53393a2029d241394997265a1a25aefc6".toList
  | some key => digestOf key

/-- One byte that expires after a second, then five that do not. -/
def oneExpiringRun : List (Op (Option Bool)) :=
  [.putTtl (some false) [1] 1 {} (fun _ => {}), .put (some true) [2, 3, 4, 5, 6] {} (fun _ => {})]

/-- The state after the run, under a limit. -/
def oneExpiring (maxSize : SizeT) : DiskCache (Option Bool) :=
  run (step digestOfThree) { maxSize } oneExpiringRun

def later : Env := { now := 100 }

theorem evictsShortest_iff_stopsWithRoom_oneExpiring :
    (oneExpiring 11).EvictsShortest none [0, 0, 0, 0, 0, 0]
      ((oneExpiring 11).putTtl digestOfThree none [0, 0, 0, 0, 0, 0] 0 later fun _ => later).2 := by
  have haccounted : (oneExpiring 11).Accounted :=
    ⟨by decide, ⟨by decide, by decide⟩, rfl, rfl⟩
  refine (evictsShortest_iff_stopsWithRoom haccounted (by decide) (by decide) (by decide) rfl 0).mpr ?_
  have hexpires : ExpiresAt digestOfThree (fun _ => later) (oneExpiring 11)
      ((oneExpiring 11).others none) 1 := ⟨some false, by decide, by decide⟩
  refine Or.inr ⟨by decide, 1, by decide, by decide, by decide, Or.inr hexpires, ?_⟩
  rintro position hposition ⟨key, hkey, -⟩
  have hlt := (List.getElem?_eq_some_iff.mp hkey).1
  have hlength : ((oneExpiring 11).others none).length = 2 := by decide
  omega

/-- Under a limit of ten bytes, ten new ones need the room of all entries, and the eviction stops after
the first, which has expired: fifteen bytes are left. -/
theorem evict_stops_too_early :
    ¬ ∀ (maxSize : SizeT) (ops : List (Op (Option Bool))) (key : Option Bool) (value : Bytes)
        (ttl : Seconds) (env : Env) (passes : Nat → Env),
      let c := run (step digestOfThree) { maxSize } ops
      c.Accounted → (c.lruList.map (getFilePath digestOfThree)).Nodup →
        value.length ≤ c.maxSize.toNat → 0 < c.maxSize → env.mkpath = true →
        c.EvictsShortest key value (c.putTtl digestOfThree key value ttl env passes).2 := by
  intro hclaim
  have haccounted : (oneExpiring 10).Accounted :=
    ⟨by decide, ⟨by decide, by decide⟩, rfl, rfl⟩
  have hevicts := hclaim 10 oneExpiringRun none (List.replicate 10 0) 0 later (fun _ => later)
    haccounted (by decide) (by decide) (by decide) rfl
  exact absurd hevicts.size_le (by decide)

/-- At a time when nothing has expired, one byte too many costs both entries. -/
example :
    ((oneExpiring 6).putTtl digestOfThree none [0] 0 {} fun _ => {}).2.lruList = [none] := by
  decide

end SoulCoreKit.Storage.DiskCache
