import Mathlib.Logic.Function.Iterate
import Mathlib.Order.Basic

/-!
# Decisions that may throw

A test of type `Except ε Bool` decides a proposition on a domain and throws outside it. The domain of a
conjunction, of a disjunction and of a bounded search follows from what they evaluate: an operand, or a
candidate, counts only where the ones before it leave the answer open.
-/

namespace SoulCoreKit.Lib

variable {α ε : Type}

/-- The test decides `p` where `q` holds, and throws where it does not. -/
structure DecidesOn (test : Except ε Bool) (p q : Prop) : Prop where
  ok : q → ∃ b, test = .ok b ∧ (b = true ↔ p)
  throws : ¬ q → ∃ e, test = .error e

/-- The lazy `&&`. -/
def andThen (first second : Except ε Bool) : Except ε Bool :=
  first.bind fun b => if b then second else .ok false

/-- The lazy `||`. -/
def orElse (first second : Except ε Bool) : Except ε Bool :=
  first.bind fun b => if b then .ok true else second

namespace DecidesOn

variable {test first second : Except ε Bool} {p p₁ p₂ q q₁ q₂ : Prop}

theorem pure {b : Bool} (h : b = true ↔ p) : DecidesOn (.ok b : Except ε Bool) p True :=
  ⟨fun _ => ⟨b, rfl, h⟩, fun hnot => (hnot trivial).elim⟩

theorem congr (h : DecidesOn test p₁ q₁) (hp : p₁ ↔ p₂) (hq : q₁ ↔ q₂) : DecidesOn test p₂ q₂ := by
  rw [propext hp, propext hq] at h
  exact h

/-- The answer is right exactly on the domain. -/
theorem ok_iff (h : DecidesOn test p q) : (∃ b, test = .ok b ∧ (b = true ↔ p)) ↔ q := by
  constructor
  · rintro ⟨b, hb, -⟩
    by_contra hq
    obtain ⟨e, he⟩ := h.throws hq
    rw [he] at hb
    cases hb
  · exact h.ok

theorem eq_true (h : DecidesOn test p q) (hq : q) (hp : p) : test = .ok true := by
  obtain ⟨b, hb, hiff⟩ := h.ok hq
  rw [hb, hiff.mpr hp]

theorem eq_false (h : DecidesOn test p q) (hq : q) (hp : ¬ p) : test = .ok false := by
  obtain ⟨b, hb, hiff⟩ := h.ok hq
  have hfalse : b = false := Bool.eq_false_iff.mpr (fun htrue => hp (hiff.mp htrue))
  rw [hb, hfalse]

/-- A test of something that has to be read first. -/
theorem bind {read : Except ε α} {test : α → Except ε Bool} {p q : α → Prop}
    (htest : ∀ a, DecidesOn (test a) (p a) (q a)) :
    DecidesOn (read.bind test) (∃ a, read = .ok a ∧ p a) (∃ a, read = .ok a ∧ q a) := by
  cases read with
  | error e =>
    refine ⟨?_, fun _ => ⟨e, rfl⟩⟩
    rintro ⟨a, ha, -⟩
    cases ha
  | ok a =>
    refine (htest a).congr ?_ ?_
    · simp
    · simp

theorem andThen (h₁ : DecidesOn first p₁ q₁) (h₂ : DecidesOn second p₂ q₂) :
    DecidesOn (andThen first second) (p₁ ∧ p₂) (q₁ ∧ (p₁ → q₂)) := by
  by_cases hq₁ : q₁
  case neg =>
    obtain ⟨e, he⟩ := h₁.throws hq₁
    exact ⟨fun hq => (hq₁ hq.1).elim, fun _ => ⟨e, by rw [he]; rfl⟩⟩
  by_cases hp₁ : p₁
  · have heq : Lib.andThen first second = second := by rw [h₁.eq_true hq₁ hp₁]; rfl
    rw [heq]
    exact h₂.congr (by simp [hp₁]) (by simp [hq₁, hp₁])
  · have heq : Lib.andThen first second = .ok false := by rw [h₁.eq_false hq₁ hp₁]; rfl
    rw [heq]
    exact (pure (p := p₁ ∧ p₂) (by simp [hp₁])).congr Iff.rfl (by simp [hq₁, hp₁])

theorem orElse (h₁ : DecidesOn first p₁ q₁) (h₂ : DecidesOn second p₂ q₂) :
    DecidesOn (orElse first second) (p₁ ∨ p₂) (q₁ ∧ (p₁ ∨ q₂)) := by
  by_cases hq₁ : q₁
  case neg =>
    obtain ⟨e, he⟩ := h₁.throws hq₁
    exact ⟨fun hq => (hq₁ hq.1).elim, fun _ => ⟨e, by rw [he]; rfl⟩⟩
  by_cases hp₁ : p₁
  · have heq : Lib.orElse first second = .ok true := by rw [h₁.eq_true hq₁ hp₁]; rfl
    rw [heq]
    exact (pure (p := p₁ ∨ p₂) (by simp [hp₁])).congr Iff.rfl (by simp [hq₁, hp₁])
  · have heq : Lib.orElse first second = second := by rw [h₁.eq_false hq₁ hp₁]; rfl
    rw [heq]
    exact h₂.congr (by simp [hp₁]) (by simp [hq₁, hp₁])

end DecidesOn

/-! ### Bounded search -/

/-- The first of `n` candidates, `a`, `next a`, …, that passes the test. -/
def firstOf (test : α → Except ε Bool) (next : α → α) : Nat → α → Except ε (Option α)
  | 0, _ => .ok none
  | n + 1, a => (test a).bind fun b => if b then .ok (some a) else firstOf test next n (next a)

/-- What a search over `n` candidates is to return: the first with the property, or none. -/
def IsFirstOf (p : α → Prop) (next : α → α) (n : Nat) (a : α) : Option α → Prop
  | some c => ∃ i < n, c = next^[i] a ∧ p c ∧ ∀ j < i, ¬ p (next^[j] a)
  | none => ∀ i < n, ¬ p (next^[i] a)

/-- Every candidate that the search comes to lies in the domain of the test. -/
def SearchedIn (p q : α → Prop) (next : α → α) (n : Nat) (a : α) : Prop :=
  ∀ i < n, (∀ j < i, ¬ p (next^[j] a)) → q (next^[i] a)

section

variable {test : α → Except ε Bool} {p q : α → Prop} {next : α → α} {n : Nat} {a : α}

theorem isFirstOf_succ_of_head (hp : p a) : IsFirstOf p next (n + 1) a (some a) :=
  ⟨0, Nat.succ_pos n, rfl, hp, fun j hj => (Nat.not_lt_zero j hj).elim⟩

theorem forall_lt_succ_iterate {r : α → Prop} :
    (∀ i < n + 1, r (next^[i] a)) ↔ r a ∧ ∀ i < n, r (next^[i] (next a)) := by
  constructor
  · intro h
    exact ⟨h 0 (Nat.succ_pos n), fun i hi => h (i + 1) (Nat.succ_lt_succ hi)⟩
  · rintro ⟨hzero, hsucc⟩ i hi
    cases i with
    | zero => exact hzero
    | succ i => exact hsucc i (Nat.lt_of_succ_lt_succ hi)

theorem isFirstOf_succ {c : Option α} (hp : ¬ p a) (h : IsFirstOf p next n (next a) c) :
    IsFirstOf p next (n + 1) a c := by
  cases c with
  | none => exact (forall_lt_succ_iterate (r := fun c => ¬ p c)).mpr ⟨hp, h⟩
  | some c =>
    obtain ⟨i, hi, hc, hpc, hbefore⟩ := h
    refine ⟨i + 1, Nat.succ_lt_succ hi, hc, hpc, ?_⟩
    exact (forall_lt_succ_iterate (r := fun c => ¬ p c)).mpr ⟨hp, hbefore⟩

theorem searchedIn_succ :
    SearchedIn p q next (n + 1) a ↔ q a ∧ (¬ p a → SearchedIn p q next n (next a)) := by
  constructor
  · intro h
    refine ⟨h 0 (Nat.succ_pos n) (fun j hj => (Nat.not_lt_zero j hj).elim), fun hp i hi hbefore => ?_⟩
    exact h (i + 1) (Nat.succ_lt_succ hi)
      ((forall_lt_succ_iterate (r := fun c => ¬ p c)).mpr ⟨hp, hbefore⟩)
  · rintro ⟨hq, hrest⟩ i hi hbefore
    cases i with
    | zero => exact hq
    | succ i =>
      obtain ⟨hp, hafter⟩ := (forall_lt_succ_iterate (r := fun c => ¬ p c)).mp hbefore
      exact hrest hp i (Nat.lt_of_succ_lt_succ hi) hafter

theorem firstOf_succ_of_true (h : test a = .ok true) : firstOf test next (n + 1) a = .ok (some a) := by
  rw [firstOf, h]
  rfl

theorem firstOf_succ_of_false (h : test a = .ok false) :
    firstOf test next (n + 1) a = firstOf test next n (next a) := by
  rw [firstOf, h]
  rfl

theorem firstOf_succ_of_error {e : ε} (h : test a = .error e) :
    firstOf test next (n + 1) a = .error e := by
  rw [firstOf, h]
  rfl

/-- The search answers where everything it comes to lies in the domain. -/
theorem firstOf_ok (htest : ∀ c, DecidesOn (test c) (p c) (q c)) (h : SearchedIn p q next n a) :
    ∃ c, firstOf test next n a = .ok c ∧ IsFirstOf p next n a c := by
  induction n generalizing a with
  | zero => exact ⟨none, rfl, fun i hi => (Nat.not_lt_zero i hi).elim⟩
  | succ n ih =>
    obtain ⟨hq, hrest⟩ := searchedIn_succ.mp h
    by_cases hp : p a
    · exact ⟨some a, firstOf_succ_of_true ((htest a).eq_true hq hp), isFirstOf_succ_of_head hp⟩
    · obtain ⟨c, hc, hfirst⟩ := ih (hrest hp)
      refine ⟨c, ?_, isFirstOf_succ hp hfirst⟩
      rw [firstOf_succ_of_false ((htest a).eq_false hq hp), hc]

theorem firstOf_throws (htest : ∀ c, DecidesOn (test c) (p c) (q c))
    (h : ¬ SearchedIn p q next n a) : ∃ e, firstOf test next n a = .error e := by
  induction n generalizing a with
  | zero => exact (h (fun i hi => (Nat.not_lt_zero i hi).elim)).elim
  | succ n ih =>
    by_cases hq : q a
    case neg =>
      obtain ⟨e, he⟩ := (htest a).throws hq
      exact ⟨e, firstOf_succ_of_error he⟩
    have hrest : ¬ (¬ p a → SearchedIn p q next n (next a)) :=
      fun hrest => h (searchedIn_succ.mpr ⟨hq, hrest⟩)
    obtain ⟨hp, hnot⟩ := Classical.not_imp.mp hrest
    obtain ⟨e, he⟩ := ih hnot
    exact ⟨e, by rw [firstOf_succ_of_false ((htest a).eq_false hq hp), he]⟩

end

end SoulCoreKit.Lib
