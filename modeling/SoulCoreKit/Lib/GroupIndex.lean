import SoulCoreKit.Lib.UnorderedMap

/-!
# An index by groups beside a map

Some keys of a map belong to a group, and an index lists keys under their groups so that a group can be
erased without a search. The index may list a key that has left the map, or one key twice: it only has
to list every key of the map, and to list no key under another group. What erases entries then needs no
care, and an insertion has to list its key.
-/

namespace SoulCoreKit.GroupIndex

variable {K V G : Type} [DecidableEq K] [DecidableEq G] {group : K → Option G}
  {entries : UnorderedMap K V} {index : UnorderedMap G (List K)}

structure Indexed (group : K → Option G) (entries : UnorderedMap K V)
    (index : UnorderedMap G (List K)) : Prop where
  complete : ∀ key ∈ entries, ∀ name, group key = some name →
    ∃ listed, index.lookup name = some listed ∧ key ∈ listed
  sound : ∀ name listed, index.lookup name = some listed → ∀ key ∈ listed, group key = some name

/-- The key goes to the end of the list of the group. -/
def enlist (index : UnorderedMap G (List K)) (name : G) (key : K) : UnorderedMap G (List K) :=
  index.insert name ((index.lookup name).getD [] ++ [key])

def eraseAll (entries : UnorderedMap K V) (keys : List K) : UnorderedMap K V :=
  keys.foldl (fun entries key => entries.erase key) entries

theorem lookup_eraseAll (entries : UnorderedMap K V) (keys : List K) (key : K) :
    (eraseAll entries keys).lookup key = if key ∈ keys then none else entries.lookup key := by
  induction keys generalizing entries with
  | nil => rfl
  | cons first keys ih =>
      refine (ih (entries.erase first)).trans ?_
      by_cases heq : key = first
      · subst heq
        simp
      · simp [Finmap.lookup_erase_ne heq, heq]

omit [DecidableEq K] in
theorem indexed_empty (group : K → Option G) :
    Indexed group (∅ : UnorderedMap K V) (∅ : UnorderedMap G (List K)) where
  complete _ hmem := absurd hmem Finmap.notMem_empty
  sound _ _ hlookup := absurd (Finmap.mem_of_lookup_eq_some hlookup) Finmap.notMem_empty

omit [DecidableEq K] in
theorem Indexed.of_subset (hindexed : Indexed group entries index) {left : UnorderedMap K V}
    (hsub : ∀ key ∈ left, key ∈ entries) : Indexed group left index where
  complete key hmem := hindexed.complete key (hsub key hmem)
  sound := hindexed.sound

theorem Indexed.insert_of_none (hindexed : Indexed group entries index) {key : K}
    (hnone : group key = none) (value : V) : Indexed group (entries.insert key value) index where
  complete other hmem name hname := by
    rcases Finmap.mem_insert.mp hmem with rfl | hother
    · rw [hnone] at hname
      exact absurd hname (by simp)
    · exact hindexed.complete other hother name hname
  sound := hindexed.sound

theorem Indexed.insert_of_some (hindexed : Indexed group entries index) {key : K} {name : G}
    (hname : group key = some name) (value : V) :
    Indexed group (entries.insert key value) (enlist index name key) where
  complete other hmem name' hname' := by
    unfold enlist
    rw [UnorderedMap.lookup_insert_ite]
    by_cases heq : name' = name
    · subst heq
      refine ⟨_, if_pos rfl, ?_⟩
      rcases Finmap.mem_insert.mp hmem with rfl | hother
      · simp
      · obtain ⟨listed, hlookup, hlisted⟩ := hindexed.complete other hother name' hname'
        simp [hlookup, hlisted]
    · rw [if_neg heq]
      rcases Finmap.mem_insert.mp hmem with rfl | hother
      · exact absurd (Option.some.inj (hname'.symm.trans hname)) heq
      · exact hindexed.complete other hother name' hname'
  sound name' listed hlookup other hother := by
    rcases UnorderedMap.lookup_insert_cases hlookup with ⟨rfl, rfl⟩ | ⟨-, hkept⟩
    · rcases List.mem_append.mp hother with hold | hnew
      · cases hbefore : index.lookup name' with
        | none =>
            rw [hbefore] at hold
            exact absurd hold (by simp)
        | some before =>
            rw [hbefore] at hold
            exact hindexed.sound name' before hbefore other hold
      · rw [List.mem_singleton.mp hnew]
        exact hname
    · exact hindexed.sound name' listed hkept other hother

/-- Erasing what is listed under a group erases the group and nothing else. -/
theorem Indexed.lookup_eraseAll (hindexed : Indexed group entries index) (name : G) (key : K) :
    (eraseAll entries ((index.lookup name).getD [])).lookup key =
      if group key = some name then none else entries.lookup key := by
  rw [GroupIndex.lookup_eraseAll]
  cases hlookup : index.lookup name with
  | none =>
      rw [Option.getD_none, if_neg List.not_mem_nil]
      split_ifs with hgroup
      · rw [Finmap.lookup_eq_none]
        intro hmem
        obtain ⟨listed, hlisted, -⟩ := hindexed.complete key hmem name hgroup
        rw [hlookup] at hlisted
        exact absurd hlisted (by simp)
      · rfl
  | some listed =>
      rw [Option.getD_some]
      by_cases hgroup : group key = some name
      · rw [if_pos hgroup]
        split_ifs with hmem
        · rfl
        · rw [Finmap.lookup_eq_none]
          intro hpresent
          obtain ⟨listed', hlisted', hmem'⟩ := hindexed.complete key hpresent name hgroup
          rw [hlookup] at hlisted'
          exact hmem (Option.some.inj hlisted' ▸ hmem')
      · rw [if_neg hgroup, if_neg fun hmem => hgroup (hindexed.sound name listed hlookup key hmem)]

theorem Indexed.eraseGroup (hindexed : Indexed group entries index) (name : G) :
    Indexed group (eraseAll entries ((index.lookup name).getD [])) (index.erase name) where
  complete key hmem name' hname' := by
    obtain ⟨value, hvalue⟩ := Finmap.mem_iff.mp hmem
    rw [hindexed.lookup_eraseAll] at hvalue
    split_ifs at hvalue with hgroup
    have hne : name' ≠ name := by
      rintro rfl
      exact hgroup hname'
    rw [Finmap.lookup_erase_ne hne]
    exact hindexed.complete key (Finmap.mem_of_lookup_eq_some hvalue) name' hname'
  sound name' listed hlookup :=
    hindexed.sound name' listed (UnorderedMap.lookup_of_lookup_erase hlookup)

end SoulCoreKit.GroupIndex
