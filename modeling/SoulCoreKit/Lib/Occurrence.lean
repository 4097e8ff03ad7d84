import Mathlib.Data.List.Infix

/-!
# Occurrences of a word in a text

A word that does not contain the letter at a boundary cannot occur across that boundary, so its
occurrences in a concatenation are those in its parts. The first occurrence is where it is whatever
follows it.
-/

namespace SoulCoreKit.Occurrence

variable {A : Type} {word : List A}

theorem prefix_append_cons {xs ys : List A} {a : A} (ha : a ∉ word)
    (hfront : word <+: xs ++ a :: ys) : word <+: xs := by
  induction xs generalizing word with
  | nil =>
      cases word with
      | nil => exact List.nil_prefix
      | cons b rest =>
          have hb := (List.cons_prefix_cons.mp hfront).1
          simp [hb] at ha
  | cons x xs ih =>
      cases word with
      | nil => exact List.nil_prefix
      | cons b rest =>
          rw [List.cons_append] at hfront
          obtain ⟨hb, hrest⟩ := List.cons_prefix_cons.mp hfront
          have harest : a ∉ rest := fun hmem => ha (List.mem_cons_of_mem b hmem)
          exact List.cons_prefix_cons.mpr ⟨hb, ih harest hrest⟩

theorem infix_append_cons_iff {xs ys : List A} {a : A} (ha : a ∉ word) :
    word <:+: xs ++ a :: ys ↔ word <:+: xs ∨ word <:+: ys := by
  constructor
  · intro hinfix
    induction xs with
    | nil =>
        rw [List.nil_append, List.infix_cons_iff] at hinfix
        obtain hfront | hrest := hinfix
        · exact Or.inl (@prefix_append_cons A word [] ys a ha hfront).isInfix
        · exact Or.inr hrest
    | cons x xs ih =>
        rw [List.cons_append, List.infix_cons_iff, ← List.cons_append] at hinfix
        obtain hfront | hrest := hinfix
        · exact Or.inl (prefix_append_cons ha hfront).isInfix
        · exact (ih hrest).imp_left List.infix_cons
  · rintro (hxs | hys)
    · exact List.infix_append_of_infix_left hxs
    · exact List.infix_append_of_infix_right (List.infix_cons hys)

theorem infix_append_iff_of_last {xs ys : List A} (hword : word ≠ [])
    (hlast : ∀ a ∈ xs.getLast?, a ∉ word) :
    word <:+: xs ++ ys ↔ word <:+: xs ∨ word <:+: ys := by
  obtain rfl | ⟨start, a, rfl⟩ := List.eq_nil_or_concat' xs
  · simp [hword]
  · have ha : a ∉ word := hlast a (by simp)
    have hsingle : ¬ word <:+: ([] : List A) := by simpa using hword
    calc
      word <:+: start ++ [a] ++ ys ↔ word <:+: start ++ a :: ys := by simp
      _ ↔ word <:+: start ∨ word <:+: ys := infix_append_cons_iff ha
      _ ↔ word <:+: start ++ [a] ∨ word <:+: ys := by
        rw [@infix_append_cons_iff A word start [] a ha, or_iff_left hsingle]

theorem infix_flatten_iff {parts : List (List A)} (hword : word ≠ [])
    (hlast : ∀ part ∈ parts, ∀ a ∈ part.getLast?, a ∉ word) :
    word <:+: parts.flatten ↔ ∃ part ∈ parts, word <:+: part := by
  induction parts with
  | nil => simp [hword]
  | cons part rest ih =>
      rw [List.flatten_cons, infix_append_iff_of_last hword (hlast part (by simp)),
        ih fun other hmem => hlast other (List.mem_cons_of_mem part hmem)]
      simp

/-! ### The first occurrence -/

variable [DecidableEq A]

/-- Where a word first occurs. -/
def firstIndex (word : List A) : List A → Option Nat
  | [] => if word.isPrefixOf [] then some 0 else none
  | a :: rest => if word.isPrefixOf (a :: rest) then some 0 else (firstIndex word rest).map (· + 1)

theorem firstIndex_add_length_le {xs : List A} {i : Nat} (hfound : firstIndex word xs = some i) :
    i + word.length ≤ xs.length := by
  induction xs generalizing i with
  | nil =>
      rw [firstIndex] at hfound
      split at hfound
      · rename_i hfront
        rw [← Option.some_inj.mp hfound, Nat.zero_add]
        exact (List.isPrefixOf_iff_prefix.mp hfront).length_le
      · contradiction
  | cons a rest ih =>
      rw [firstIndex] at hfound
      split at hfound
      · rename_i hfront
        rw [← Option.some_inj.mp hfound, Nat.zero_add]
        exact (List.isPrefixOf_iff_prefix.mp hfront).length_le
      · obtain ⟨j, hj, rfl⟩ := Option.map_eq_some_iff.mp hfound
        have hle := ih hj
        rw [List.length_cons]
        omega

/-- What follows an occurrence does not bring another one before it. -/
theorem firstIndex_append {xs : List A} {i : Nat} (hfound : firstIndex word xs = some i)
    (ys : List A) : firstIndex word (xs ++ ys) = some i := by
  induction xs generalizing i with
  | nil =>
      rw [firstIndex] at hfound
      split at hfound
      · rename_i hfront
        have hword : word = [] := List.prefix_nil.mp (List.isPrefixOf_iff_prefix.mp hfront)
        rw [← Option.some_inj.mp hfound, hword, List.nil_append]
        cases ys <;> rfl
      · contradiction
  | cons a rest ih =>
      have hle := firstIndex_add_length_le hfound
      rw [firstIndex] at hfound
      rw [List.cons_append, firstIndex]
      split at hfound
      · rename_i hfront
        have hlonger : word <+: a :: (rest ++ ys) :=
          (List.isPrefixOf_iff_prefix.mp hfront).trans (List.prefix_append (a :: rest) ys)
        rw [if_pos (List.isPrefixOf_iff_prefix.mpr hlonger)]
        exact hfound
      · rename_i hfront
        have hnot : ¬ word.isPrefixOf (a :: (rest ++ ys)) = true := by
          intro hlonger
          apply hfront
          rw [List.isPrefixOf_iff_prefix] at hlonger ⊢
          exact List.prefix_of_prefix_length_le hlonger (List.prefix_append (a :: rest) ys) (by omega)
        obtain ⟨j, hj, rfl⟩ := Option.map_eq_some_iff.mp hfound
        rw [if_neg hnot, ih hj]
        rfl

theorem firstIndex_eq_some_iff {xs : List A} {i : Nat} :
    firstIndex word xs = some i ↔ word <+: xs.drop i ∧ ∀ j < i, ¬ word <+: xs.drop j := by
  induction xs generalizing i with
  | nil =>
      rw [firstIndex]
      simp only [List.drop_nil, List.isPrefixOf_iff_prefix, List.prefix_nil]
      by_cases hword : word = []
      · rw [if_pos hword, Option.some_inj]
        constructor
        · rintro rfl
          exact ⟨hword, fun j hj => absurd hj (Nat.not_lt_zero j)⟩
        · rintro ⟨-, hbefore⟩
          exact (Nat.eq_zero_of_not_pos fun hpos => hbefore 0 hpos hword).symm
      · rw [if_neg hword]
        exact iff_of_false (by simp) fun hspec => hword hspec.1
  | cons a rest ih =>
      rw [firstIndex]
      simp only [List.isPrefixOf_iff_prefix]
      by_cases hfront : word <+: a :: rest
      · rw [if_pos hfront, Option.some_inj]
        constructor
        · rintro rfl
          exact ⟨hfront, fun j hj => absurd hj (Nat.not_lt_zero j)⟩
        · rintro ⟨-, hbefore⟩
          exact (Nat.eq_zero_of_not_pos fun hpos => hbefore 0 hpos hfront).symm
      · rw [if_neg hfront, Option.map_eq_some_iff]
        constructor
        · rintro ⟨j, hj, rfl⟩
          obtain ⟨hat, hbefore⟩ := ih.mp hj
          refine ⟨hat, fun k hk => ?_⟩
          cases k with
          | zero => exact hfront
          | succ k => exact hbefore k (by omega)
        · rintro ⟨hat, hbefore⟩
          cases i with
          | zero => exact absurd hat hfront
          | succ i =>
              exact ⟨i, ih.mpr ⟨hat, fun j hj => hbefore (j + 1) (by omega)⟩, rfl⟩

theorem firstIndex_eq_none_iff {xs : List A} : firstIndex word xs = none ↔ ¬ word <:+: xs := by
  induction xs with
  | nil =>
      rw [firstIndex]
      simp only [List.isPrefixOf_iff_prefix, List.prefix_nil, List.infix_nil]
      by_cases hword : word = []
      · simp [hword]
      · simp [hword]
  | cons a rest ih =>
      rw [firstIndex, List.infix_cons_iff]
      simp only [List.isPrefixOf_iff_prefix]
      by_cases hfront : word <+: a :: rest
      · simp [hfront]
      · simp [hfront, ih]

/-- A letter that is not in the word parts the search. -/
theorem firstIndex_append_cons {xs ys : List A} {a : A} (ha : a ∉ word)
    (hnone : firstIndex word xs = none) :
    firstIndex word (xs ++ a :: ys) = (firstIndex word ys).map (· + (xs.length + 1)) := by
  have hsplit (zs : List A) (hzs : firstIndex word zs = none) : ¬ word <+: zs ++ a :: ys := by
    intro hfront
    exact firstIndex_eq_none_iff.mp hzs (prefix_append_cons ha hfront).isInfix
  induction xs with
  | nil =>
      have hfront := hsplit [] hnone
      rw [List.nil_append] at hfront ⊢
      rw [firstIndex, if_neg (by rwa [List.isPrefixOf_iff_prefix])]
      rfl
  | cons x xs ih =>
      have hrest : firstIndex word xs = none := by
        rw [firstIndex_eq_none_iff] at hnone ⊢
        exact fun hinfix => hnone (List.infix_cons hinfix)
      have hfront := hsplit (x :: xs) hnone
      rw [List.cons_append] at hfront ⊢
      rw [firstIndex, if_neg (by rwa [List.isPrefixOf_iff_prefix]), ih hrest, Option.map_map]
      rfl

/-- A word that ends a text and does not occur in it before. -/
theorem firstIndex_append_word {xs : List A} (hnot : ¬ word <:+: xs ++ word.dropLast) (ys : List A) :
    firstIndex word (xs ++ (word ++ ys)) = some xs.length := by
  rw [firstIndex_eq_some_iff, List.drop_left]
  refine ⟨List.prefix_append word ys, fun j hj hfront => hnot ?_⟩
  rw [List.drop_append_of_le_length hj.le, ← List.append_assoc] at hfront
  have hshort : xs.drop j ++ word.dropLast <+: xs.drop j ++ word ++ ys := by
    rw [List.append_assoc, List.prefix_append_right_inj]
    exact (List.dropLast_prefix word).trans (List.prefix_append word ys)
  have hlength : word.length ≤ (xs.drop j ++ word.dropLast).length := by
    rw [List.length_append, List.length_drop, List.length_dropLast]
    omega
  have hinfix := (List.prefix_of_prefix_length_le hfront hshort hlength).isInfix
  have hdrop : xs.drop j ++ word.dropLast <:+ xs ++ word.dropLast := by
    rw [← List.drop_append_of_le_length hj.le]
    exact List.drop_suffix j _
  exact hinfix.trans hdrop.isInfix

end SoulCoreKit.Occurrence
