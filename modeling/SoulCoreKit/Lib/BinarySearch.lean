import Mathlib.Order.Lattice

/-!
# Binary search

`std::lower_bound`: the first element of a sorted list that is not below the value, by halving the part of the
list where it may be.
-/

namespace SoulCoreKit.Lib

variable {α : Type} [LinearOrder α] {xs : List α} {value : α}

/-- The search in the `len` elements from `first` on. Each round cuts off an element at least, so that the
length of the list is enough of a bound on the rounds. -/
def lowerBoundFrom (xs : List α) (value : α) : Nat → Nat → Nat → Nat
  | 0, first, _ => first
  | bound + 1, first, len =>
      if len = 0 then
        first
      else
        let half := len / 2
        match xs[first + half]? with
        | none => first
        | some middle =>
            if middle < value then lowerBoundFrom xs value bound (first + half + 1) (len - half - 1)
            else lowerBoundFrom xs value bound first half

def lowerBound (xs : List α) (value : α) : Nat := lowerBoundFrom xs value xs.length 0 xs.length

/-- What lies before the place is below the value, and nothing from the place on is. -/
def Parts (xs : List α) (value : α) (place : Nat) : Prop :=
  ∀ i x, xs[i]? = some x → (i < place ↔ x < value)

theorem getElem?_mono (hsorted : xs.Pairwise (· ≤ ·)) {i j : Nat} {x y : α} (hx : xs[i]? = some x)
    (hy : xs[j]? = some y) (hij : i ≤ j) : x ≤ y := by
  obtain ⟨hi, rfl⟩ := List.getElem?_eq_some_iff.mp hx
  obtain ⟨hj, rfl⟩ := List.getElem?_eq_some_iff.mp hy
  obtain rfl | hlt := Nat.eq_or_lt_of_le hij
  · exact le_rfl
  · exact List.pairwise_iff_getElem.mp hsorted i j hi hj hlt

/-- Where the bounds meet, the place is found. -/
theorem parts_of_meet {place : Nat} (hbefore : ∀ i x, xs[i]? = some x → i < place → x < value)
    (hafter : ∀ i x, xs[i]? = some x → place ≤ i → value ≤ x) : Parts xs value place := by
  refine fun i x hx => ⟨hbefore i x hx, fun hlt => ?_⟩
  by_contra hge
  exact absurd hlt (hafter i x hx (Nat.not_lt.mp hge)).not_gt

theorem lowerBoundFrom_spec (hsorted : xs.Pairwise (· ≤ ·)) {bound first len : Nat} (hbound : len ≤ bound)
    (hend : first + len ≤ xs.length) (hbefore : ∀ i x, xs[i]? = some x → i < first → x < value)
    (hafter : ∀ i x, xs[i]? = some x → first + len ≤ i → value ≤ x) :
    Parts xs value (lowerBoundFrom xs value bound first len) ∧
      lowerBoundFrom xs value bound first len ≤ xs.length := by
  induction bound generalizing first len with
  | zero =>
      obtain rfl := Nat.le_zero.mp hbound
      exact ⟨parts_of_meet hbefore hafter, hend⟩
  | succ bound ih =>
      rw [lowerBoundFrom]
      by_cases hlen : len = 0
      · subst hlen
        exact ⟨parts_of_meet hbefore hafter, hend⟩
      have hmiddle : first + len / 2 < xs.length := by omega
      have hget := List.getElem?_eq_getElem hmiddle
      simp only [if_neg hlen, hget]
      split
      · rename_i hbelow
        refine ih (by omega) (by omega) ?_ ?_
        · intro i x hx hi
          exact (getElem?_mono hsorted hx hget (by omega)).trans_lt hbelow
        · intro i x hx hi
          exact hafter i x hx (by omega)
      · rename_i hnot
        refine ih (by omega) (by omega) hbefore ?_
        intro i x hx hi
        exact (not_lt.mp hnot).trans (getElem?_mono hsorted hget hx hi)

theorem lowerBound_spec (hsorted : xs.Pairwise (· ≤ ·)) (value : α) :
    Parts xs value (lowerBound xs value) ∧ lowerBound xs value ≤ xs.length := by
  refine lowerBoundFrom_spec hsorted (Nat.le_refl _) (Nat.le_of_eq (Nat.zero_add _)) ?_ ?_
  · intro i x hx hi
    exact absurd hi (Nat.not_lt_zero i)
  · intro i x hx hi
    have hbound := (List.getElem?_eq_some_iff.mp hx).1
    omega

end SoulCoreKit.Lib
