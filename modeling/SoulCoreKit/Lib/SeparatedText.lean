import Mathlib.Data.List.Basic
import Mathlib.Data.List.Lex
import Mathlib.Order.Lattice

/-!
# Words with a separator between them

The texts of two lists of words are compared like the words at which they first differ, unless one of these is
a prefix of the other: then the separator is compared with what follows.
-/

namespace SoulCoreKit.Lib

section

variable {α : Type} {separator : α}

/-- Nothing follows, or the separator. -/
def EndsWord (separator : α) (rest : List α) : Prop := rest = [] ∨ ∃ tail, rest = separator :: tail

/-- What follows the first word. -/
def afterWord (separator : α) : List (List α) → List α
  | [] => []
  | next :: words => separator :: [separator].intercalate (next :: words)

theorem intercalate_cons_eq (word : List α) (words : List (List α)) :
    [separator].intercalate (word :: words) = word ++ afterWord separator words := by
  cases words with
  | nil => rw [List.intercalate_singleton, afterWord, List.append_nil]
  | cons next words => rw [List.intercalate_cons_cons, afterWord, List.append_assoc, List.singleton_append]

theorem mem_intercalate {a : α} {words : List (List α)} (h : a ∈ [separator].intercalate words) :
    a = separator ∨ ∃ word ∈ words, a ∈ word := by
  induction words with
  | nil => cases h
  | cons word words ih =>
      rw [intercalate_cons_eq] at h
      obtain hword | hrest := List.mem_append.mp h
      · exact .inr ⟨word, List.mem_cons_self, hword⟩
      cases words with
      | nil => cases hrest
      | cons next words =>
          obtain hseparator | hrest := List.mem_cons.mp hrest
          · exact .inl hseparator
          · exact (ih hrest).imp_right fun ⟨w, hw, ha⟩ => ⟨w, List.mem_cons_of_mem word hw, ha⟩

theorem endsWord_afterWord (words : List (List α)) : EndsWord separator (afterWord separator words) := by
  cases words with
  | nil => exact .inl rfl
  | cons next words => exact .inr ⟨_, rfl⟩

theorem afterWord_ne_nil_iff {words : List (List α)} : afterWord separator words ≠ [] ↔ words ≠ [] := by
  cases words <;> simp [afterWord]

theorem intercalate_append_cons (front : List (List α)) (word : List α) (words : List (List α)) :
    [separator].intercalate (front ++ word :: words) =
      (front.flatMap fun w => w ++ [separator]) ++ [separator].intercalate (word :: words) := by
  induction front with
  | nil => rfl
  | cons w front ih =>
      have hrest : ∃ next rest, front ++ word :: words = next :: rest := by
        cases front <;> exact ⟨_, _, rfl⟩
      obtain ⟨next, rest, hrest⟩ := hrest
      rw [List.cons_append, hrest, intercalate_cons_eq, afterWord, ← hrest, ih]
      simp

/-- Two lists are equal, one goes on after the other, or they first differ somewhere. -/
theorem first_difference (l l' : List α) :
    l = l' ∨ (∃ y ys, l' = l ++ y :: ys) ∨ (∃ x xs, l = l' ++ x :: xs) ∨
      ∃ front x xs y ys, l = front ++ x :: xs ∧ l' = front ++ y :: ys ∧ x ≠ y := by
  induction l generalizing l' with
  | nil =>
      cases l' with
      | nil => exact .inl rfl
      | cons y ys => exact .inr (.inl ⟨y, ys, rfl⟩)
  | cons x xs ih =>
      cases l' with
      | nil => exact .inr (.inr (.inl ⟨x, xs, rfl⟩))
      | cons y ys =>
          by_cases hxy : x = y
          case neg => exact .inr (.inr (.inr ⟨[], x, xs, y, ys, rfl, rfl, hxy⟩))
          subst hxy
          obtain rfl | ⟨z, zs, rfl⟩ | ⟨z, zs, rfl⟩ | ⟨front, a, as, b, bs, rfl, rfl, hab⟩ := ih ys
          · exact .inl rfl
          · exact .inr (.inl ⟨z, zs, rfl⟩)
          · exact .inr (.inr (.inl ⟨z, zs, rfl⟩))
          · exact .inr (.inr (.inr ⟨x :: front, a, as, b, bs, rfl, rfl, hab⟩))

/-- Two lists first differ at one place only. -/
theorem first_difference_unique {front front' xs xs' ys ys' : List α} {x x' y y' : α}
    (hl : front ++ x :: xs = front' ++ x' :: xs') (hr : front ++ y :: ys = front' ++ y' :: ys')
    (hne : x ≠ y) (hne' : x' ≠ y') : front = front' := by
  induction front generalizing front' with
  | nil =>
      cases front' with
      | nil => rfl
      | cons a front' =>
          have hx : x = a := (List.cons.inj hl).1
          have hy : y = a := (List.cons.inj hr).1
          exact absurd (hx.trans hy.symm) hne
  | cons a front ih =>
      cases front' with
      | nil =>
          have hx : a = x' := (List.cons.inj hl).1
          have hy : a = y' := (List.cons.inj hr).1
          exact absurd (hx.symm.trans hy) hne'
      | cons a' front' =>
          have hhead : a = a' := (List.cons.inj hl).1
          rw [hhead, ih (List.cons.inj hl).2 (List.cons.inj hr).2]

theorem append_lt_append_left_iff [LT α] [Std.Irrefl ((· < ·) : α → α → Prop)] {s t : List α}
    (front : List α) :
    front ++ s < front ++ t ↔ s < t := by
  induction front with
  | nil => rfl
  | cons a front ih => rwa [List.cons_append, List.cons_append, List.cons_lt_cons_self]

end

section

variable {α : Type} [LinearOrder α] {separator : α} {u v s t : List α}

/-- Another list goes on after this one with something below the separator. -/
def GoesBelow (separator : α) (u v : List α) : Prop := ∃ c rest, v = u ++ c :: rest ∧ c < separator

theorem not_goesBelow_of_head_ne {c d : α} (hne : c ≠ d) : ¬GoesBelow separator (c :: u) (d :: v) := by
  rintro ⟨e, rest, heq, -⟩
  exact hne (List.cons.inj heq).1.symm

theorem goesBelow_cons_iff {c : α} : GoesBelow separator (c :: u) (c :: v) ↔ GoesBelow separator u v := by
  simp [GoesBelow]

/-- Different words, each with its rest, are in the order of the words, unless one is a prefix of the other,
a rest follows it, and the other goes on below the separator. -/
theorem word_lt_word_iff (hne : u ≠ v) (hu : separator ∉ u) (hv : separator ∉ v)
    (hs : EndsWord separator s) (ht : EndsWord separator t) :
    u ++ s < v ++ t ↔
      u < v ∧ ¬(s ≠ [] ∧ GoesBelow separator u v) ∨ t ≠ [] ∧ GoesBelow separator v u := by
  induction u generalizing v with
  | nil =>
      obtain ⟨c, rest, rfl⟩ := List.exists_cons_of_ne_nil (Ne.symm hne)
      have hc : separator ≠ c := fun h => hv (h ▸ List.mem_cons_self)
      have hleft : ¬GoesBelow separator (c :: rest) [] := by simp [GoesBelow]
      have hright : GoesBelow separator [] (c :: rest) ↔ c < separator := by simp [GoesBelow]
      obtain rfl | ⟨tail, rfl⟩ := hs
      · simp [hleft]
      · simp [hleft, hright, List.cons_lt_cons_iff, hc, hc.le_iff_lt]
  | cons c u ih =>
      cases v with
      | nil =>
          have hc : c ≠ separator := fun h => hu (h ▸ List.mem_cons_self)
          have hright : GoesBelow separator [] (c :: u) ↔ c < separator := by simp [GoesBelow]
          obtain rfl | ⟨tail, rfl⟩ := ht
          · simp
          · simp [hright, List.cons_lt_cons_iff, hc]
      | cons d v =>
          by_cases hcd : c = d
          · subst hcd
            have hword := ih (fun h => hne (h ▸ rfl)) (fun h => hu (List.mem_cons_of_mem c h))
              fun h => hv (List.mem_cons_of_mem c h)
            simpa only [List.cons_append, List.cons_lt_cons_iff, lt_irrefl, false_or, true_and,
              goesBelow_cons_iff] using hword
          · have hleft := @not_goesBelow_of_head_ne _ _ separator u v c d hcd
            have hright := @not_goesBelow_of_head_ne _ _ separator v u d c (Ne.symm hcd)
            simp [List.cons_lt_cons_iff, hcd, hleft, hright]

/-- Lists of words that first differ at these two. -/
theorem intercalate_lt_intercalate_iff (front : List (List α)) {us vs : List (List α)} (hne : u ≠ v)
    (hu : separator ∉ u) (hv : separator ∉ v) :
    [separator].intercalate (front ++ u :: us) < [separator].intercalate (front ++ v :: vs) ↔
      u < v ∧ ¬(us ≠ [] ∧ GoesBelow separator u v) ∨ vs ≠ [] ∧ GoesBelow separator v u := by
  rw [intercalate_append_cons, intercalate_append_cons, append_lt_append_left_iff, intercalate_cons_eq,
    intercalate_cons_eq, word_lt_word_iff hne hu hv (endsWord_afterWord us) (endsWord_afterWord vs),
    afterWord_ne_nil_iff, afterWord_ne_nil_iff]

/-- A list of words is below each that goes on after it. -/
theorem intercalate_lt_intercalate_append {words : List (List α)} (hwords : words ≠ []) (word : List α)
    (more : List (List α)) :
    [separator].intercalate words < [separator].intercalate (words ++ word :: more) := by
  obtain ⟨front, last, rfl⟩ := (List.eq_nil_or_concat' words).resolve_left hwords
  rw [List.append_assoc, List.singleton_append, intercalate_append_cons, intercalate_append_cons,
    append_lt_append_left_iff, intercalate_cons_eq, intercalate_cons_eq, append_lt_append_left_iff]
  exact List.nil_lt_cons _ _

end

section

variable {α : Type} [DecidableEq α] {separator : α} {word text : List α}

/-- The words of a text. As with `std::getline`, there is none after a separator at the end. -/
def wordsOf (separator : α) : List α → List (List α)
  | [] => []
  | c :: rest =>
      if c = separator then
        [] :: wordsOf separator rest
      else
        match wordsOf separator rest with
        | [] => [[c]]
        | word :: words => (c :: word) :: words

theorem wordsOf_append_cons (hword : separator ∉ word) (rest : List α) :
    wordsOf separator (word ++ separator :: rest) = word :: wordsOf separator rest := by
  induction word with
  | nil => rw [List.nil_append, wordsOf, if_pos rfl]
  | cons c word ih =>
      obtain ⟨hc, hword⟩ := List.ne_and_not_mem_of_not_mem_cons hword
      rw [List.cons_append, wordsOf, if_neg (Ne.symm hc), ih hword]

theorem wordsOf_of_not_mem (hne : word ≠ []) (hword : separator ∉ word) :
    wordsOf separator word = [word] := by
  induction word with
  | nil => exact absurd rfl hne
  | cons c word ih =>
      obtain ⟨hc, hword⟩ := List.ne_and_not_mem_of_not_mem_cons hword
      rw [wordsOf, if_neg (Ne.symm hc)]
      cases word with
      | nil => rfl
      | cons d word => rw [ih (List.cons_ne_nil d word) hword]

theorem wordsOf_eq_nil_iff : wordsOf separator text = [] ↔ text = [] := by
  cases text with
  | nil => exact iff_of_true rfl rfl
  | cons c rest =>
      rw [wordsOf]
      split_ifs
      · simp
      · split <;> simp

/-- The first word goes up to the first separator, or to the end where there is none. -/
theorem wordsOf_eq_cons_iff {words : List (List α)} :
    wordsOf separator text = word :: words ↔
      separator ∉ word ∧ ((∃ rest, text = word ++ separator :: rest ∧ wordsOf separator rest = words) ∨
        text = word ∧ word ≠ [] ∧ words = []) := by
  constructor
  · intro hwords
    by_cases hmem : separator ∈ text
    · obtain ⟨first, rest, rfl, hfirst⟩ := List.eq_append_cons_of_mem hmem
      rw [wordsOf_append_cons hfirst] at hwords
      obtain ⟨rfl, hrest⟩ := List.cons.inj hwords
      exact ⟨hfirst, .inl ⟨rest, rfl, hrest⟩⟩
    · have hne : text ≠ [] := fun hnil => by
        rw [wordsOf_eq_nil_iff.mpr hnil] at hwords
        cases hwords
      rw [wordsOf_of_not_mem hne hmem] at hwords
      obtain ⟨rfl, hnone⟩ := List.cons.inj hwords
      exact ⟨hmem, .inr ⟨rfl, hne, hnone.symm⟩⟩
  · rintro ⟨hword, ⟨rest, rfl, rfl⟩ | ⟨rfl, hne, rfl⟩⟩
    · exact wordsOf_append_cons hword rest
    · exact wordsOf_of_not_mem hne hword

theorem wordsOf_eq_cons_cons_iff {next : List α} {words : List (List α)} :
    wordsOf separator text = word :: next :: words ↔
      separator ∉ word ∧
        ∃ rest, text = word ++ separator :: rest ∧ wordsOf separator rest = next :: words := by
  simp [wordsOf_eq_cons_iff]

/-- There is one word, and after it nothing or the separator. -/
theorem wordsOf_eq_singleton_iff :
    wordsOf separator text = [word] ↔
      separator ∉ word ∧ ∃ trailing, text = word ++ trailing ∧
        (trailing = [] ∧ word ≠ [] ∨ trailing = [separator]) := by
  rw [wordsOf_eq_cons_iff]
  refine and_congr_right fun _ => ?_
  constructor
  · rintro (⟨rest, rfl, hrest⟩ | ⟨rfl, hne, -⟩)
    · rw [wordsOf_eq_nil_iff.mp hrest]
      exact ⟨[separator], rfl, .inr rfl⟩
    · exact ⟨[], (List.append_nil _).symm, .inl ⟨rfl, hne⟩⟩
  · rintro ⟨trailing, rfl, ⟨rfl, hne⟩ | rfl⟩
    · exact .inr ⟨List.append_nil _, hne, rfl⟩
    · exact .inl ⟨[], rfl, rfl⟩

end

end SoulCoreKit.Lib
