import SoulCoreKit.Lib.SeparatedText
import Mathlib.Data.Char

/-!
# Semantic versions

The grammar of Semantic Versioning 2.0, the precedence of versions, and when the texts of two pre-releases are
in the order of precedence.
-/

namespace SoulCoreKit.Lib

/-! ### The grammar -/

namespace SemVer

def isIdentifierChar (c : Char) : Bool := c.isAlphanum || c = '-'

/-- Letters, digits and hyphens that are not all digits. -/
structure Alphanumeric where
  text : List Char
  isIdentifier : ∀ c ∈ text, isIdentifierChar c = true
  notDigits : ∃ c ∈ text, c.isDigit = false

/-- An identifier of a pre-release. A numeric one has no leading zeros. -/
inductive Identifier where
  | numeric (n : Nat)
  | alphanumeric (word : Alphanumeric)

structure BuildIdentifier where
  text : List Char
  nonempty : text ≠ []
  isIdentifier : ∀ c ∈ text, isIdentifierChar c = true

def Identifier.text : Identifier → List Char
  | .numeric n => Nat.toDigits 10 n
  | .alphanumeric word => word.text

end SemVer

open SemVer in
/-- A version; a list is empty where the part is absent. -/
structure SemVer where
  major : Nat
  minor : Nat
  patch : Nat
  pre : List Identifier := []
  build : List BuildIdentifier := []

namespace SemVer

/-- A part that starts with its mark, unless it is absent. -/
def marked (mark : Char) (words : List (List Char)) : List Char :=
  if words = [] then [] else mark :: ['.'].intercalate words

def spelling (v : SemVer) : List Char :=
  Nat.toDigits 10 v.major ++ '.' :: (Nat.toDigits 10 v.minor ++ '.' :: (Nat.toDigits 10 v.patch ++
    (marked '-' (v.pre.map Identifier.text) ++ marked '+' (v.build.map BuildIdentifier.text))))

/-! ### Precedence -/

/-- Numbers are compared as numbers and come before the other identifiers. -/
def Identifier.Below : Identifier → Identifier → Prop
  | .numeric m, .numeric n => m < n
  | .numeric _, .alphanumeric _ => True
  | .alphanumeric _, .numeric _ => False
  | .alphanumeric word, .alphanumeric word' => word.text < word'.text

instance : LT Identifier := ⟨Identifier.Below⟩

/-- A pre-release comes before the version itself; a longer list comes after each that it goes on from. -/
def PreBelow (pre pre' : List Identifier) : Prop := pre ≠ [] ∧ (pre' = [] ∨ pre < pre')

/-- `v` has lower precedence than `w`. -/
def Precedes (v w : SemVer) : Prop :=
  v.major < w.major ∨ v.major = w.major ∧
    (v.minor < w.minor ∨ v.minor = w.minor ∧
      (v.patch < w.patch ∨ v.patch = w.patch ∧ PreBelow v.pre w.pre))

/-! ### The order of the texts -/

theorem isDigit_of_mem_toDigits {n : Nat} {c : Char} (hc : c ∈ Nat.toDigits 10 n) : c.isDigit = true :=
  Nat.isDigit_of_mem_toDigits (by decide) (by decide) hc

theorem isIdentifierChar_of_isDigit {c : Char} (h : c.isDigit = true) : isIdentifierChar c = true := by
  simp [isIdentifierChar, Char.isAlphanum, h]

/-- Of the characters of an identifier only the hyphen comes before the dot. -/
theorem lt_dot_iff {c : Char} (h : isIdentifierChar c = true) : c < '.' ↔ c = '-' := by
  have hlt : c < '.' ↔ c.toNat < 46 := Iff.rfl
  have heq : c = '-' ↔ c.toNat = 45 := ⟨fun hc => hc ▸ rfl, fun hc => Char.toNat_inj.mp hc⟩
  rw [hlt, heq]
  change (((decide (c.val ≥ 65 ∧ c.val ≤ 90) || (decide (c.val ≥ 97) && decide (c.val ≤ 122))) ||
    (decide (c.val ≥ 48) && decide (c.val ≤ 57))) || decide (c = '-')) = true at h
  simp only [Bool.or_eq_true, Bool.and_eq_true, decide_eq_true_eq, heq, ge_iff_le,
    UInt32.le_iff_toNat_le] at h
  change (((65 ≤ c.toNat ∧ c.toNat ≤ 90) ∨ 97 ≤ c.toNat ∧ c.toNat ≤ 122) ∨ 48 ≤ c.toNat ∧ c.toNat ≤ 57) ∨
    c.toNat = 45 at h
  omega

namespace Identifier

variable {x y : Identifier}

theorem isIdentifierChar_of_mem_text {c : Char} (hc : c ∈ x.text) : isIdentifierChar c = true := by
  cases x with
  | numeric n =>
      exact isIdentifierChar_of_isDigit (isDigit_of_mem_toDigits hc)
  | alphanumeric word => exact word.isIdentifier c hc

theorem dot_not_mem_text : '.' ∉ x.text := fun h =>
  absurd (isIdentifierChar_of_mem_text h) (by decide)

/-- A number is not spelled like an identifier that is not all digits. -/
theorem toDigits_ne (n : Nat) (word : Alphanumeric) : Nat.toDigits 10 n ≠ word.text := by
  intro htext
  obtain ⟨c, hc, hdigit⟩ := word.notDigits
  rw [← htext] at hc
  rw [isDigit_of_mem_toDigits hc] at hdigit
  contradiction

theorem text_injective : Function.Injective text := by
  intro x y htext
  cases x with
  | numeric m =>
      cases y with
      | numeric n =>
          have hvalue := congrArg (fun digits => Nat.ofDigitChars 10 digits 0) htext
          simp only [text, Nat.ofDigitChars_ten_toDigits] at hvalue
          rw [hvalue]
      | alphanumeric word => exact absurd htext (toDigits_ne m word)
  | alphanumeric word =>
      cases y with
      | numeric n => exact absurd htext.symm (toDigits_ne n word)
      | alphanumeric word' =>
          obtain ⟨text, _, _⟩ := word
          obtain ⟨text', _, _⟩ := word'
          obtain rfl : text = text' := htext
          rfl

theorem asymm (h : x < y) : ¬y < x := by
  cases x with
  | numeric m =>
      cases y with
      | numeric n => exact Nat.lt_asymm h
      | alphanumeric word => exact id
  | alphanumeric word =>
      cases y with
      | numeric n => exact h.elim
      | alphanumeric word' => exact lt_asymm (a := word.text) h

instance : Std.Asymm ((· < ·) : Identifier → Identifier → Prop) := ⟨fun _ _ => asymm⟩

instance : Std.Irrefl ((· < ·) : Identifier → Identifier → Prop) := ⟨fun _ h => asymm h h⟩

theorem text_ne_nil : x.text ≠ [] := by
  cases x with
  | numeric n => exact Nat.toDigits_ne_nil
  | alphanumeric word =>
      obtain ⟨c, hc, -⟩ := word.notDigits
      exact List.ne_nil_of_mem hc

/-- An identifier is a prefix of another that goes on with a hyphen. -/
def Hyphened (x y : Identifier) : Prop := ∃ rest, y.text = x.text ++ '-' :: rest

theorem goesBelow_iff : GoesBelow '.' x.text y.text ↔ x.Hyphened y := by
  constructor
  · rintro ⟨c, rest, htext, hc⟩
    have hmem : c ∈ y.text := by simp [htext]
    rw [(lt_dot_iff (isIdentifierChar_of_mem_text hmem)).mp hc] at htext
    exact ⟨rest, htext⟩
  · rintro ⟨rest, htext⟩
    exact ⟨'-', rest, htext, by decide⟩

theorem Hyphened.text_lt (h : x.Hyphened y) : x.text < y.text := by
  obtain ⟨rest, htext⟩ := h
  rw [htext]
  conv_lhs => rw [← List.append_nil x.text]
  exact List.append_left_lt (List.nil_lt_cons _ _)

/-- What goes on with a hyphen is not a number. -/
theorem Hyphened.lt (h : x.Hyphened y) : x < y := by
  have htext := h.text_lt
  obtain ⟨rest, hrest⟩ := h
  cases y with
  | numeric n =>
      have hmem : '-' ∈ Nat.toDigits 10 n := by
        rw [show Nat.toDigits 10 n = x.text ++ '-' :: rest from hrest]
        simp
      exact absurd (isDigit_of_mem_toDigits hmem) (by decide)
  | alphanumeric word =>
      cases x with
      | numeric m => exact trivial
      | alphanumeric word' => exact htext

end Identifier

/-- The texts of two different identifiers are in the order of the identifiers, and none goes on with a hyphen
after the other where that one is not the last. -/
def AgreeAt (x : Identifier) (xs : List Identifier) (y : Identifier) (ys : List Identifier) : Prop :=
  (x.text < y.text ↔ x < y) ∧ ¬(xs ≠ [] ∧ x.Hyphened y) ∧ ¬(ys ≠ [] ∧ y.Hyphened x)

/-- The text of the identifiers, as it is written. -/
def preText (pre : List Identifier) : List Char := ['.'].intercalate (pre.map Identifier.text)

/-- The texts of two lists that first differ at these identifiers are in the order of the lists exactly if the
identifiers agree. -/
theorem preText_lt_iff {front xs ys : List Identifier} {x y : Identifier} (hne : x ≠ y) :
    (preText (front ++ x :: xs) < preText (front ++ y :: ys) ↔ front ++ x :: xs < front ++ y :: ys) ↔
      AgreeAt x xs y ys := by
  have hword := Identifier.text_injective.ne hne
  have hlists : x :: xs < y :: ys ↔ x < y := by
    simp [List.cons_lt_cons_iff, hne]
  rw [preText, preText, List.map_append, List.map_append, List.map_cons, List.map_cons,
    intercalate_lt_intercalate_iff _ hword Identifier.dot_not_mem_text Identifier.dot_not_mem_text,
    append_lt_append_left_iff, hlists, Identifier.goesBelow_iff, Identifier.goesBelow_iff, ne_eq, ne_eq,
    List.map_eq_nil_iff, List.map_eq_nil_iff, AgreeAt]
  by_cases hleft : x.Hyphened y
  · have hright : ¬y.Hyphened x := fun h => lt_asymm hleft.text_lt h.text_lt
    simp [hleft, hright, hleft.text_lt, hleft.lt]
  by_cases hright : y.Hyphened x
  · have htext : ¬x.text < y.text := lt_asymm hright.text_lt
    have hlt : ¬x < y := Identifier.asymm hright.lt
    simp [hleft, hright, htext, hlt]
  · simp [hleft, hright]

theorem preText_eq_nil_iff {pre : List Identifier} : preText pre = [] ↔ pre = [] := by
  cases pre with
  | nil => simp [preText]
  | cons x xs => simp [preText, intercalate_cons_eq, Identifier.text_ne_nil]

/-- Both pre-releases are absent, or neither is and the identifiers at which they first differ agree. -/
def PreAgree (pre pre' : List Identifier) : Prop :=
  (pre = [] ↔ pre' = []) ∧ ∀ front x xs y ys, pre = front ++ x :: xs → pre' = front ++ y :: ys → x ≠ y →
    AgreeAt x xs y ys

theorem preAgree_append {pre pre' more : List Identifier} (hpre : pre ≠ [])
    (hmore : pre' = pre ++ more) : PreAgree pre pre' ∧ PreAgree pre' pre := by
  have hsame : ∀ {front xs ys : List Identifier} {x y : Identifier}, pre = front ++ x :: xs →
      pre' = front ++ y :: ys → x = y := by
    intro front xs ys x y hl hr
    rw [hmore, hl, List.append_assoc, List.append_cancel_left_eq] at hr
    exact (List.cons.inj hr).1
  have hpre' : pre' ≠ [] := by simp [hmore, hpre]
  refine ⟨⟨iff_of_false hpre hpre', ?_⟩, ⟨iff_of_false hpre' hpre, ?_⟩⟩
  · intro front x xs y ys hl hr hne
    exact absurd (hsame hl hr) hne
  · intro front x xs y ys hl hr hne
    exact absurd (hsame hr hl).symm hne

theorem preText_lt_append {pre : List Identifier} (hpre : pre ≠ []) (y : Identifier) (ys : List Identifier) :
    preText pre < preText (pre ++ y :: ys) := by
  rw [preText, preText, List.map_append, List.map_cons]
  exact intercalate_lt_intercalate_append (mt List.map_eq_nil_iff.mp hpre) _ _

theorem lt_append {pre : List Identifier} (y : Identifier) (ys : List Identifier) : pre < pre ++ y :: ys := by
  conv_lhs => rw [← List.append_nil pre]
  exact List.append_left_lt (List.nil_lt_cons y ys)

/-- Texts of present pre-releases. -/
theorem preText_lt_iff_lt {pre pre' : List Identifier} (hpre : pre ≠ []) (hpre' : pre' ≠ []) :
    (preText pre < preText pre' ↔ pre < pre') ↔ PreAgree pre pre' := by
  obtain rfl | ⟨y, ys, rfl⟩ | ⟨x, xs, rfl⟩ | ⟨front, x, xs, y, ys, rfl, rfl, hne⟩ := first_difference pre pre'
  · refine iff_of_true (iff_of_false (lt_irrefl _) (List.lt_irrefl pre)) ?_
    exact (preAgree_append hpre (List.append_nil pre).symm).1
  · exact iff_of_true (iff_of_true (preText_lt_append hpre y ys) (lt_append y ys))
      (preAgree_append hpre rfl).1
  · refine iff_of_true (iff_of_false ?_ ?_) (preAgree_append hpre' rfl).2
    · exact lt_asymm (preText_lt_append hpre' x xs)
    · exact List.lt_asymm (lt_append x xs)
  · rw [preText_lt_iff hne]
    constructor
    · intro hagree
      refine ⟨iff_of_false hpre hpre', fun front' x' xs' y' ys' hl hr hne' => ?_⟩
      obtain rfl := first_difference_unique hl hr hne hne'
      obtain ⟨rfl, rfl⟩ := List.cons.inj (List.append_cancel_left hl)
      obtain ⟨rfl, rfl⟩ := List.cons.inj (List.append_cancel_left hr)
      exact hagree
    · exact fun hagree => hagree.2 front x xs y ys rfl rfl hne

/-- The texts of two pre-releases are in the order of precedence exactly if the pre-releases agree. -/
theorem preText_lt_iff_preBelow (pre pre' : List Identifier) :
    (preText pre < preText pre' ↔ PreBelow pre pre') ↔ PreAgree pre pre' := by
  have hnil : preText [] = [] := rfl
  cases pre with
  | nil =>
      cases pre' with
      | nil => simp [PreBelow, PreAgree]
      | cons y ys =>
          have hlt : preText [] < preText (y :: ys) := by
            have hne : preText (y :: ys) ≠ [] := mt preText_eq_nil_iff.mp (List.cons_ne_nil y ys)
            obtain ⟨c, rest, htext⟩ := List.exists_cons_of_ne_nil hne
            rw [hnil, htext]
            exact List.nil_lt_cons c rest
          simp [PreBelow, PreAgree, hlt]
  | cons x xs =>
      cases pre' with
      | nil => simp [PreBelow, PreAgree, hnil]
      | cons y ys =>
          rw [← preText_lt_iff_lt (by simp) (by simp), PreBelow]
          simp

end SemVer

end SoulCoreKit.Lib
