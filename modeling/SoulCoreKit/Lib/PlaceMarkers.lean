import Mathlib.Data.List.Basic

/-!
# Place markers in a text

A `%`, perhaps an `L`, and one or two digits stand for an argument. One argument takes the place of every
marker with the least number there is; its own text is not looked at, but it is by the argument that follows
it. A text that is assembled from arguments without a `%` is the template with the arguments in it.
-/

namespace SoulCoreKit.PlaceMarkers

/-- The number after a `%`, and what follows it. -/
def readNumber : List Char → Option (Nat × List Char)
  | c :: d :: rest =>
      if c.isDigit then
        if d.isDigit then some (10 * (c.toNat - 48) + (d.toNat - 48), rest)
        else some (c.toNat - 48, d :: rest)
      else none
  | [c] => if c.isDigit then some (c.toNat - 48, []) else none
  | [] => none

def readMarker : List Char → Option (Nat × List Char)
  | 'L' :: rest => readNumber rest
  | rest => readNumber rest

theorem readNumber_length {text rest : List Char} {n : Nat} (hread : readNumber text = some (n, rest)) :
    rest.length < text.length := by
  match text with
  | [] => cases hread
  | [c] =>
    simp only [readNumber] at hread
    split at hread
    · obtain ⟨-, rfl⟩ := Prod.mk.inj (Option.some.inj hread)
      simp
    · cases hread
  | c :: d :: more =>
    simp only [readNumber] at hread
    split at hread
    · split at hread
      · obtain ⟨-, rfl⟩ := Prod.mk.inj (Option.some.inj hread)
        simp only [List.length_cons]
        omega
      · obtain ⟨-, rfl⟩ := Prod.mk.inj (Option.some.inj hread)
        simp
    · cases hread

theorem readMarker_length {text rest : List Char} {n : Nat} (hread : readMarker text = some (n, rest)) :
    rest.length < text.length := by
  unfold readMarker at hread
  split at hread
  · exact Nat.lt_succ_of_lt (readNumber_length hread)
  · exact readNumber_length hread

/-- The numbers of the markers. -/
def markers : List Char → List Nat
  | [] => []
  | c :: rest =>
      if c = '%' then
        match readMarker rest with
        | some (n, _) => n :: markers rest
        | none => markers rest
      else
        markers rest

/-- The text with an argument in the place of every marker of a number. -/
def replaceMarker (n : Nat) (argument : List Char) : List Char → List Char
  | [] => []
  | c :: rest =>
      if c = '%' then
        match _ : readMarker rest with
        | some (m, rest') =>
            if m = n then argument ++ replaceMarker n argument rest'
            else '%' :: replaceMarker n argument rest
        | none => '%' :: replaceMarker n argument rest
      else
        c :: replaceMarker n argument rest
termination_by text => text.length
decreasing_by
  · exact Nat.lt_succ_of_lt (readMarker_length ‹_›)
  all_goals exact Nat.lt_succ_self _

/-- One argument. -/
def arg (text argument : List Char) : List Char :=
  match (markers text).min? with
  | none => text
  | some n => replaceMarker n argument text

/-! ### Templates -/

/-- A marker of one digit, in front of a text that does not go on with a digit. -/
theorem readMarker_digit {c : Char} {rest : List Char} (hc : c.isDigit = true)
    (hrest : ∀ d ∈ rest.head?, d.isDigit = false) : readMarker (c :: rest) = some (c.toNat - 48, rest) := by
  have hletter : c ≠ 'L' := by
    rintro rfl
    exact absurd hc (by decide)
  have hmarker : readMarker (c :: rest) = readNumber (c :: rest) := by
    unfold readMarker
    split
    · rename_i heq
      exact absurd (List.cons.inj heq).1 hletter
    · rfl
  rw [hmarker]
  cases rest with
  | nil => simp [readNumber, hc]
  | cons d rest =>
    have hd : d.isDigit = false := hrest d rfl
    simp [readNumber, hc, hd]

theorem markers_text {text rest : List Char} (htext : '%' ∉ text) :
    markers (text ++ rest) = markers rest := by
  induction text with
  | nil => rfl
  | cons c text ih =>
    rw [List.mem_cons, not_or] at htext
    rw [List.cons_append, markers, if_neg (Ne.symm htext.1), ih htext.2]

theorem markers_marker {c : Char} {rest : List Char} (hc : c.isDigit = true)
    (hrest : ∀ d ∈ rest.head?, d.isDigit = false) :
    markers ('%' :: c :: rest) = (c.toNat - 48) :: markers rest := by
  have hne : c ≠ '%' := by
    rintro rfl
    exact absurd hc (by decide)
  rw [markers, if_pos rfl, readMarker_digit hc hrest]
  dsimp only
  rw [markers, if_neg hne]

theorem replaceMarker_text {n : Nat} {argument text rest : List Char} (htext : '%' ∉ text) :
    replaceMarker n argument (text ++ rest) = text ++ replaceMarker n argument rest := by
  induction text with
  | nil => rfl
  | cons c text ih =>
    rw [List.mem_cons, not_or] at htext
    rw [List.cons_append, replaceMarker, if_neg (Ne.symm htext.1), ih htext.2, List.cons_append]

theorem replaceMarker_marker {n : Nat} {argument rest : List Char} {c : Char} (hc : c.isDigit = true)
    (hrest : ∀ d ∈ rest.head?, d.isDigit = false) :
    replaceMarker n argument ('%' :: c :: rest) =
      if c.toNat - 48 = n then argument ++ replaceMarker n argument rest
      else '%' :: c :: replaceMarker n argument rest := by
  have hne : c ≠ '%' := by
    rintro rfl
    exact absurd hc (by decide)
  rw [replaceMarker, if_pos rfl]
  split
  · rename_i hread
    rw [readMarker_digit hc hrest] at hread
    obtain ⟨rfl, rfl⟩ := Prod.mk.inj (Option.some.inj hread)
    rw [replaceMarker, if_neg hne]
  · rename_i hread
    rw [readMarker_digit hc hrest] at hread
    cases hread

theorem replaceMarker_of_not_mem {n : Nat} {argument text : List Char} (hn : n ∉ markers text) :
    replaceMarker n argument text = text := by
  induction text with
  | nil => rw [replaceMarker]
  | cons c rest ih =>
    rw [markers] at hn
    rw [replaceMarker]
    split at hn
    · rename_i hc
      rw [if_pos hc]
      split
      · rename_i hread
        rw [hread] at hn
        obtain ⟨hne, hrest⟩ := not_or.mp (List.mem_cons.not.mp hn)
        rw [if_neg (Ne.symm hne), ih hrest, hc]
      · rename_i hread
        rw [hread] at hn
        rw [ih hn, hc]
    · rename_i hc
      rw [if_neg hc, ih hn]

/-- The first marker of a template whose other markers have greater numbers. -/
theorem arg_first {before argument after : List Char} {c : Char} (hbefore : '%' ∉ before)
    (hc : c.isDigit = true) (hafter : ∀ d ∈ after.head?, d.isDigit = false)
    (hgreater : ∀ n ∈ markers after, c.toNat - 48 < n) :
    arg (before ++ '%' :: c :: after) argument = before ++ argument ++ after := by
  have hmin : (markers (before ++ '%' :: c :: after)).min? = some (c.toNat - 48) := by
    rw [markers_text hbefore, markers_marker hc hafter, List.min?_eq_some_iff]
    refine ⟨List.mem_cons_self, ?_⟩
    intro n hn
    obtain rfl | hn := List.mem_cons.mp hn
    · exact Nat.le_refl _
    · exact Nat.le_of_lt (hgreater n hn)
  have hnot : c.toNat - 48 ∉ markers after := fun hmem => Nat.lt_irrefl _ (hgreater _ hmem)
  rw [arg, hmin]
  dsimp only
  rw [replaceMarker_text hbefore, replaceMarker_marker hc hafter, if_pos rfl,
    replaceMarker_of_not_mem hnot, List.append_assoc]

end SoulCoreKit.PlaceMarkers
