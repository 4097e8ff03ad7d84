import Mathlib.Data.Finmap
import Mathlib.Algebra.BigOperators.Group.Multiset.Basic
import Mathlib.Algebra.Order.BigOperators.Group.Multiset
import Mathlib.Algebra.Order.Ring.Nat

/-!
# Finite maps without an order

A hash map is a finite map: nothing a program can rely on distinguishes two maps with the same
lookups, and in particular not the order in which a loop visits the entries. `Finmap` is that type.
What it lacks is accounting: how a quantity summed over all entries moves when one entry is
inserted, replaced or erased. Everything below comes from one fact, that a present entry can be
split off the multiset of entries.
-/

namespace SoulCoreKit

/-- A finite map from keys to values whose iteration order is not observable. -/
abbrev UnorderedMap (K V : Type) := Finmap fun _ : K => V

namespace UnorderedMap

variable {K V : Type} [DecidableEq K] {m : UnorderedMap K V} {key : K} {value : V}

/-- The number of entries. -/
def size (m : UnorderedMap K V) : Nat := m.entries.card

/-- The sum of a quantity over all entries. -/
def total {M : Type} [AddCommMonoid M] (weight : K → V → M) (m : UnorderedMap K V) : M :=
  (m.entries.map fun entry => weight entry.1 entry.2).sum

/-- The quantity a key contributes to the total: nothing when it is absent. -/
def weightAt {M : Type} [AddCommMonoid M] (weight : K → V → M) (m : UnorderedMap K V) (key : K) :
    M :=
  match m.lookup key with
  | none => 0
  | some value => weight key value

/-- A visiting order of the map: every key once. -/
def Enumerates (order : List K) (m : UnorderedMap K V) : Prop :=
  order.Nodup ∧ order.toFinset = m.keys

instance (order : List K) (m : UnorderedMap K V) : Decidable (Enumerates order m) :=
  inferInstanceAs (Decidable (_ ∧ _))

theorem insert_erase_of_lookup (hlookup : m.lookup key = some value) :
    (m.erase key).insert key value = m := by
  apply Finmap.ext_lookup
  intro other
  by_cases heq : other = key
  · subst heq
    rw [Finmap.lookup_insert, hlookup]
  · rw [Finmap.lookup_insert_of_ne _ heq, Finmap.lookup_erase_ne heq]

theorem insert_erase (m : UnorderedMap K V) (key : K) (value : V) :
    (m.erase key).insert key value = m.insert key value := by
  apply Finmap.ext_lookup
  intro other
  by_cases heq : other = key
  · subst heq
    rw [Finmap.lookup_insert, Finmap.lookup_insert]
  · rw [Finmap.lookup_insert_of_ne _ heq, Finmap.lookup_insert_of_ne _ heq,
      Finmap.lookup_erase_ne heq]

theorem erase_of_lookup_none (hlookup : m.lookup key = none) : m.erase key = m := by
  apply Finmap.ext_lookup
  intro other
  by_cases heq : other = key
  · subst heq
    rw [Finmap.lookup_erase, hlookup]
  · rw [Finmap.lookup_erase_ne heq]

theorem lookup_insert_ite (m : UnorderedMap K V) (key : K) (value : V) (other : K) :
    (m.insert key value).lookup other = if other = key then some value else m.lookup other := by
  split_ifs with heq
  · rw [heq, Finmap.lookup_insert]
  · rw [Finmap.lookup_insert_of_ne _ heq]

theorem lookup_emplace (m : UnorderedMap K V) (key : K) (value : V) (other : K) :
    (if key ∈ m then m else m.insert key value).lookup other =
      (m.lookup other).or (if other = key then some value else none) := by
  by_cases heq : other = key
  · subst heq
    by_cases hmem : other ∈ m
    · obtain ⟨kept, hkept⟩ := Finmap.mem_iff.mp hmem
      rw [if_pos hmem, hkept, Option.some_or]
    · rw [if_neg hmem, Finmap.lookup_insert, Finmap.lookup_eq_none.mpr hmem, Option.none_or, if_pos rfl]
  · rw [if_neg heq, Option.or_none]
    split
    · rfl
    · exact Finmap.lookup_insert_of_ne _ heq

theorem lookup_insert_cases {other : K} {found : V}
    (hlookup : (m.insert key value).lookup other = some found) :
    other = key ∧ found = value ∨ other ≠ key ∧ m.lookup other = some found := by
  by_cases heq : other = key
  · subst heq
    rw [Finmap.lookup_insert] at hlookup
    exact Or.inl ⟨rfl, (Option.some.inj hlookup).symm⟩
  · rw [Finmap.lookup_insert_of_ne _ heq] at hlookup
    exact Or.inr ⟨heq, hlookup⟩

theorem forall_lookup_insert {P : K → V → Prop}
    (hall : ∀ key value, m.lookup key = some value → P key value) (hvalue : P key value) :
    ∀ other found, (m.insert key value).lookup other = some found → P other found := by
  intro other found hlookup
  rcases lookup_insert_cases hlookup with ⟨rfl, rfl⟩ | ⟨-, hold⟩
  · exact hvalue
  · exact hall other found hold

theorem lookup_of_lookup_erase {other : K} (hlookup : (m.erase key).lookup other = some value) :
    m.lookup other = some value := by
  by_cases heq : other = key
  · rw [heq, Finmap.lookup_erase] at hlookup
    exact absurd hlookup (by simp)
  · rwa [Finmap.lookup_erase_ne heq] at hlookup

theorem entries_eq_cons_erase (hlookup : m.lookup key = some value) :
    m.entries = ⟨key, value⟩ ::ₘ (m.erase key).entries := by
  conv_lhs => rw [← insert_erase_of_lookup hlookup]
  exact Finmap.entries_insert_of_notMem Finmap.notMem_erase_self

theorem mem_entries_iff {entry : Sigma fun _ : K => V} :
    entry ∈ m.entries ↔ m.lookup entry.1 = some entry.2 := by
  rw [Finmap.lookup_eq_some_iff]

omit [DecidableEq K] in
theorem size_empty : size (∅ : UnorderedMap K V) = 0 := rfl

omit [DecidableEq K] in
theorem card_keys (m : UnorderedMap K V) : m.keys.card = size m :=
  Multiset.card_map _ m.entries

theorem size_insert_of_notMem (hfresh : key ∉ m) : size (m.insert key value) = size m + 1 := by
  unfold size
  rw [Finmap.entries_insert_of_notMem hfresh, Multiset.card_cons]

theorem size_erase_of_lookup (hlookup : m.lookup key = some value) :
    size (m.erase key) + 1 = size m := by
  unfold size
  rw [entries_eq_cons_erase hlookup, Multiset.card_cons]

theorem size_erase_lt (hmem : key ∈ m) : size (m.erase key) < size m := by
  obtain ⟨value, hlookup⟩ := Finmap.mem_iff.mp hmem
  have hsize := size_erase_of_lookup hlookup
  omega

omit [DecidableEq K] in
theorem size_eq_zero_iff : size m = 0 ↔ m = ∅ := by
  unfold size
  rw [Multiset.card_eq_zero]
  constructor
  · intro hentries
    exact Finmap.ext hentries
  · rintro rfl
    rfl

section Total

variable {M : Type} [AddCommMonoid M] (weight : K → V → M)

omit [DecidableEq K] in
@[simp]
theorem total_empty : total weight (∅ : UnorderedMap K V) = 0 := rfl

theorem total_insert_of_notMem (hfresh : key ∉ m) :
    total weight (m.insert key value) = weight key value + total weight m := by
  unfold total
  rw [Finmap.entries_insert_of_notMem hfresh, Multiset.map_cons, Multiset.sum_cons]

theorem total_eq_add_erase (hlookup : m.lookup key = some value) :
    total weight m = weight key value + total weight (m.erase key) := by
  unfold total
  rw [entries_eq_cons_erase hlookup, Multiset.map_cons, Multiset.sum_cons]

/-- Writing a key, present or not: its old weight goes, its new weight comes. -/
theorem total_insert (m : UnorderedMap K V) (key : K) (value : V) :
    total weight (m.insert key value) = weight key value + total weight (m.erase key) := by
  rw [← insert_erase]
  exact total_insert_of_notMem weight Finmap.notMem_erase_self

theorem total_congr {weight weight' : K → V → M}
    (hweight : ∀ key value, m.lookup key = some value → weight key value = weight' key value) :
    total weight m = total weight' m := by
  unfold total
  congr 1
  apply Multiset.map_congr rfl
  intro entry hentry
  exact hweight entry.1 entry.2 (mem_entries_iff.mp hentry)

omit [DecidableEq K] in
theorem total_add (weight weight' : K → V → M) (m : UnorderedMap K V) :
    total (fun key value => weight key value + weight' key value) m =
      total weight m + total weight' m :=
  Multiset.sum_map_add

theorem total_eq_zero {weight : K → V → M}
    (hweight : ∀ key value, m.lookup key = some value → weight key value = 0) :
    total weight m = 0 := by
  rw [total_congr hweight]
  simp [total]

theorem weightAt_of_lookup (hlookup : m.lookup key = some value) :
    weightAt weight m key = weight key value := by
  simp [weightAt, hlookup]

theorem weightAt_of_lookup_none (hlookup : m.lookup key = none) : weightAt weight m key = 0 := by
  simp [weightAt, hlookup]

theorem weightAt_erase_of_ne {other : K} (hne : key ≠ other) :
    weightAt weight (m.erase other) key = weightAt weight m key := by
  simp [weightAt, Finmap.lookup_erase_ne hne]

/-- Erasing a key, present or not, takes its weight off the total. -/
theorem total_erase (m : UnorderedMap K V) (key : K) :
    total weight (m.erase key) + weightAt weight m key = total weight m := by
  cases hlookup : m.lookup key with
  | none => rw [erase_of_lookup_none hlookup, weightAt_of_lookup_none weight hlookup, add_zero]
  | some value =>
      rw [total_eq_add_erase weight hlookup, weightAt_of_lookup weight hlookup, add_comm]

theorem total_ite_eq (m : UnorderedMap K V) (key : K) :
    total (fun other value => if other = key then weight other value else 0) m =
      weightAt weight m key := by
  rw [← total_erase _ m key, total_eq_zero, zero_add]
  · cases hlookup : m.lookup key with
    | none => simp [weightAt, hlookup]
    | some value => simp [weightAt, hlookup]
  · intro other value hlookup
    rw [if_neg]
    rintro rfl
    rw [Finmap.lookup_erase] at hlookup
    exact absurd hlookup (by simp)

omit [DecidableEq K] in
theorem sum_map_filter (p : K → Bool) (f : K → M) (keys : List K) :
    ((keys.filter p).map f).sum = (keys.map fun key => if p key then f key else 0).sum := by
  induction keys with
  | nil => rfl
  | cons key keys ih =>
      by_cases hp : p key = true
      · simp [hp, ih]
      · simp [hp, ih]

theorem Enumerates.erase {order : List K} (henum : Enumerates (key :: order) m) :
    Enumerates order (m.erase key) := by
  obtain ⟨hnodup, hkeys⟩ := henum
  rw [List.nodup_cons] at hnodup
  refine ⟨hnodup.2, ?_⟩
  rw [Finmap.keys_erase, ← hkeys, List.toFinset_cons, Finset.erase_insert]
  simpa using hnodup.1

theorem Enumerates.sum_weightAt {order : List K} (henum : Enumerates order m) :
    (order.map (weightAt weight m)).sum = total weight m := by
  induction order generalizing m with
  | nil =>
      have hempty : m = ∅ := by
        apply Finmap.ext_lookup
        intro key
        rw [Finmap.lookup_empty, Finmap.lookup_eq_none, ← Finmap.mem_keys, ← henum.2]
        simp
      rw [hempty, total_empty]
      rfl
  | cons key order ih =>
      have hkey : key ∉ order := (List.nodup_cons.mp henum.1).1
      rw [List.map_cons, List.sum_cons, ← total_erase weight m key, ← ih henum.erase, add_comm]
      congr 2
      apply List.map_congr_left
      intro other hother
      rw [weightAt_erase_of_ne]
      rintro rfl
      exact hkey hother

theorem total_eq_zero_iff [PartialOrder M] [IsOrderedAddMonoid M] [CanonicallyOrderedAdd M]
    {weight : K → V → M} :
    total weight m = 0 ↔ ∀ key value, m.lookup key = some value → weight key value = 0 := by
  unfold total
  rw [Multiset.sum_eq_zero_iff]
  constructor
  · intro hzero key value hlookup
    apply hzero
    rw [Multiset.mem_map]
    exact ⟨⟨key, value⟩, mem_entries_iff.mpr hlookup, rfl⟩
  · intro hzero term hterm
    obtain ⟨entry, hentry, rfl⟩ := Multiset.mem_map.mp hterm
    exact hzero _ _ (mem_entries_iff.mp hentry)

end Total

section Order

variable {weight weight' : K → V → Nat}

theorem total_le_total
    (hle : ∀ key value, m.lookup key = some value → weight key value ≤ weight' key value) :
    total weight m ≤ total weight' m := by
  unfold total
  apply Multiset.sum_map_le_sum_map
  intro entry hentry
  exact hle entry.1 entry.2 (mem_entries_iff.mp hentry)

theorem total_lt_total
    (hle : ∀ key value, m.lookup key = some value → weight key value ≤ weight' key value)
    (hlookup : m.lookup key = some value) (hlt : weight key value < weight' key value) :
    total weight m < total weight' m := by
  have hrest : total weight (m.erase key) ≤ total weight' (m.erase key) := by
    apply total_le_total
    intro other value hother
    have hne : other ≠ key := by
      rintro rfl
      rw [Finmap.lookup_erase] at hother
      exact absurd hother (by simp)
    rw [Finmap.lookup_erase_ne hne] at hother
    exact hle other value hother
  rw [total_eq_add_erase weight hlookup, total_eq_add_erase weight' hlookup]
  omega

/-- Under a pointwise bound the totals agree exactly when the weights of all entries do. -/
theorem total_eq_total_iff
    (hle : ∀ key value, m.lookup key = some value → weight key value ≤ weight' key value) :
    total weight m = total weight' m ↔
      ∀ key value, m.lookup key = some value → weight key value = weight' key value := by
  constructor
  · intro heq key value hlookup
    by_contra hne
    have hlt := total_lt_total hle hlookup (lt_of_le_of_ne (hle key value hlookup) hne)
    omega
  · exact total_congr

end Order

end UnorderedMap

end SoulCoreKit
