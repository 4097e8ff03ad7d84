import Mathlib.Algebra.Order.Ring.Int
import Mathlib.Data.Prod.Lex
import SoulCoreKit.Core.Version
import SoulCoreKit.Lib.SemVer

/-!
# When versions are in the order of precedence

`parse` reads every semantic version as its numbers and the texts of its parts. The operators are a linear
order on these, but a missing pre-release is the empty string and comes first, and pre-releases are compared
as strings.
-/

namespace SoulCoreKit.Core

open SoulCoreKit.Lib

namespace Version

/-! ### Reading a semantic version -/

theorem takeWhile_dropWhile_append {p : Char → Bool} {group rest : List Char}
    (hgroup : ∀ c ∈ group, p c = true) (hrest : ∀ c ∈ rest.head?, p c = false) :
    (group ++ rest).takeWhile p = group ∧ (group ++ rest).dropWhile p = rest := by
  rw [List.takeWhile_append_of_pos hgroup, List.dropWhile_append_of_pos hgroup]
  cases rest with
  | nil => exact ⟨List.append_nil group, rfl⟩
  | cons c rest =>
      have hc : ¬p c = true := by simp [hrest c rfl]
      rw [List.takeWhile_cons_of_neg hc, List.dropWhile_cons_of_neg hc, List.append_nil]
      exact ⟨rfl, rfl⟩

theorem digitGroup_toDigits (n : Nat) {rest : List Char} (hrest : ∀ c ∈ rest.head?, c.isDigit = false) :
    digitGroup (Nat.toDigits 10 n ++ rest) = some (Nat.toDigits 10 n, rest) := by
  have hdigits : ∀ c ∈ Nat.toDigits 10 n, c.isDigit = true := fun _ => SemVer.isDigit_of_mem_toDigits
  obtain ⟨htake, hdrop⟩ := takeWhile_dropWhile_append hdigits hrest
  have hne : (Nat.toDigits 10 n).isEmpty = false := by simp [Nat.toDigits_ne_nil]
  simp only [digitGroup, htake, hdrop, hne, Bool.false_eq_true, if_false]

theorem stoi_toDigits {n : Nat} (hsmall : n < 2 ^ 31) : stoi (Nat.toDigits 10 n) = .ok (n : Int) := by
  simp only [stoi, Nat.ofDigitChars_ten_toDigits, if_pos hsmall]

theorem isLabelChar_of_isIdentifierChar {c : Char} (h : SemVer.isIdentifierChar c = true) :
    isLabelChar c = true := by
  simp only [SemVer.isIdentifierChar, isLabelChar, Bool.or_eq_true] at h ⊢
  exact h.elim (.inl ∘ .inl) .inr

theorem labelGroup_marked {mark : Char} {words : List (List Char)} {rest : List Char}
    (hwords : ∀ word ∈ words, word ≠ [] ∧ ∀ c ∈ word, SemVer.isIdentifierChar c = true)
    (hrest : ∀ c ∈ rest.head?, c ≠ mark ∧ isLabelChar c = false) :
    labelGroup mark (SemVer.marked mark words ++ rest) = (['.'].intercalate words, rest) := by
  cases words with
  | nil =>
      cases rest with
      | nil => rfl
      | cons c rest =>
          have hc : ¬(c = mark ∧ ¬(rest.takeWhile isLabelChar).isEmpty) := fun h => (hrest c rfl).1 h.1
          exact if_neg hc
  | cons word words =>
      have hlabel : ∀ c ∈ ['.'].intercalate (word :: words), isLabelChar c = true := by
        intro c hc
        obtain rfl | ⟨w, hw, hc⟩ := mem_intercalate hc
        · decide
        · exact isLabelChar_of_isIdentifierChar ((hwords w hw).2 c hc)
      have hne : (['.'].intercalate (word :: words)).isEmpty = false := by
        simp [intercalate_cons_eq, (hwords word List.mem_cons_self).1]
      obtain ⟨htake, hdrop⟩ := takeWhile_dropWhile_append hlabel fun c hc => (hrest c hc).2
      have hmarked : SemVer.marked mark (word :: words) = mark :: ['.'].intercalate (word :: words) :=
        if_neg (List.cons_ne_nil word words)
      simp only [hmarked, List.cons_append, labelGroup, htake, hdrop, hne]
      simp

/-- The numbers fit an `int`. -/
def Small (v : SemVer) : Prop := v.major < 2 ^ 31 ∧ v.minor < 2 ^ 31 ∧ v.patch < 2 ^ 31

def ofSemVer (v : SemVer) : Version where
  mMajor := v.major
  mMinor := v.minor
  mPatch := v.patch
  mPre := SemVer.preText v.pre
  mBuild := ['.'].intercalate (v.build.map SemVer.BuildIdentifier.text)

theorem head?_marked {mark : Char} {words : List (List Char)} :
    ∀ c ∈ (SemVer.marked mark words).head?, c = mark := by
  intro c hc
  rw [SemVer.marked] at hc
  split at hc
  · cases hc
  · exact (Option.some.inj hc).symm

theorem regexMatch_spelling (v : SemVer) :
    regexMatch v.spelling = some (Nat.toDigits 10 v.major, Nat.toDigits 10 v.minor, Nat.toDigits 10 v.patch,
      SemVer.preText v.pre, ['.'].intercalate (v.build.map SemVer.BuildIdentifier.text)) := by
  have hdot : ∀ rest : List Char, ∀ c ∈ ('.' :: rest).head?, c.isDigit = false := by
    rintro rest c ⟨⟩
    rfl
  have hpatch : ∀ c ∈ (SemVer.marked '-' (v.pre.map SemVer.Identifier.text) ++
      SemVer.marked '+' (v.build.map SemVer.BuildIdentifier.text)).head?, c.isDigit = false := by
    intro c hc
    rw [List.head?_append] at hc
    obtain hpre | ⟨-, hbuild⟩ := Option.or_eq_some_iff.mp hc
    · rw [head?_marked c hpre]
      rfl
    · rw [head?_marked c hbuild]
      rfl
  have hpre := @labelGroup_marked '-' (v.pre.map SemVer.Identifier.text)
    (SemVer.marked '+' (v.build.map SemVer.BuildIdentifier.text)) (by
      rw [List.forall_mem_map]
      exact fun x _ =>
        ⟨SemVer.Identifier.text_ne_nil, fun _ => SemVer.Identifier.isIdentifierChar_of_mem_text⟩)
    (by
      intro c hc
      rw [head?_marked c hc]
      decide)
  have hbuild := @labelGroup_marked '+' (v.build.map SemVer.BuildIdentifier.text) [] (by
      rw [List.forall_mem_map]
      exact fun b _ => ⟨b.nonempty, b.isIdentifier⟩)
    (by simp)
  rw [List.append_nil] at hbuild
  simp only [regexMatch, SemVer.spelling, digitGroup_toDigits _ (hdot _), digitGroup_toDigits _ hpatch, dot,
    if_true, Option.bind_eq_bind, Option.bind_some, hpre, hbuild]
  rfl

theorem parse_spelling {v : SemVer} (hsmall : Small v) : parse v.spelling = .ok (ofSemVer v) := by
  rw [parse, regexMatch_spelling]
  simp only [stoi_toDigits hsmall.1, stoi_toDigits hsmall.2.1, stoi_toDigits hsmall.2.2]
  rfl

/-! ### The order -/

/-- The operators are those of one linear order. -/
structure Consistent (v w : Version) : Prop where
  le : v.le w = true ↔ v.lt w = true ∨ v.eq w = true
  gt : v.gt w = w.lt v
  ge : v.ge w = w.le v
  ne : v.ne w = !v.eq w
  eq : v.eq w = w.eq v
  trichotomy : (v.lt w = true ∧ v.eq w = false ∧ w.lt v = false) ∨
    (v.lt w = false ∧ v.eq w = true ∧ w.lt v = false) ∨
      v.lt w = false ∧ v.eq w = false ∧ w.lt v = true

/-- What the operators compare. -/
def key (v : Version) : Int ×ₗ Int ×ₗ Int ×ₗ List Char :=
  toLex (v.mMajor, toLex (v.mMinor, toLex (v.mPatch, v.mPre)))

variable {v w : Version}

theorem lt_iff :
    v.lt w = true ↔ v.mMajor < w.mMajor ∨ v.mMajor = w.mMajor ∧
      (v.mMinor < w.mMinor ∨ v.mMinor = w.mMinor ∧
        (v.mPatch < w.mPatch ∨ v.mPatch = w.mPatch ∧ v.mPre < w.mPre)) := by
  rw [Version.lt]
  by_cases hmajor : v.mMajor = w.mMajor
  case neg => simp [hmajor]
  by_cases hminor : v.mMinor = w.mMinor
  case neg => simp [hmajor, hminor]
  by_cases hpatch : v.mPatch = w.mPatch
  · simp [hmajor, hminor, hpatch]
  · simp [hmajor, hminor, hpatch]

theorem lt_eq_decide (v w : Version) : v.lt w = decide (v.key < w.key) := by
  rw [Bool.eq_iff_iff, lt_iff, decide_eq_true_eq, key, key, Prod.Lex.toLex_lt_toLex,
    Prod.Lex.toLex_lt_toLex, Prod.Lex.toLex_lt_toLex]

theorem eq_eq_decide (v w : Version) : v.eq w = decide (v.key = w.key) := by
  rw [Bool.eq_iff_iff, decide_eq_true_eq]
  simp [Version.eq, key, and_assoc]

theorem consistent (v w : Version) : Consistent v w := by
  obtain hkey | hkey | hkey := lt_trichotomy v.key w.key
  · constructor <;> simp [Version.le, Version.gt, Version.ge, Version.ne, lt_eq_decide, eq_eq_decide, hkey,
      hkey.ne, hkey.ne', hkey.not_gt]
  · constructor <;> simp [Version.le, Version.gt, Version.ge, Version.ne, lt_eq_decide, eq_eq_decide, hkey]
  · constructor <;> simp [Version.le, Version.gt, Version.ge, Version.ne, lt_eq_decide, eq_eq_decide, hkey,
      hkey.ne, hkey.ne', hkey.not_gt]

/-! ### Precedence -/

/-- The parsed versions are in the order of precedence, and the operators agree with each other. -/
def OrderedByPrecedence (a b : SemVer) : Prop :=
  ∃ v w, parse a.spelling = .ok v ∧ parse b.spelling = .ok w ∧ (v.lt w = true ↔ a.Precedes b) ∧ Consistent v w

/-- The numbers differ, or the pre-releases agree. -/
def PrecedenceAgrees (a b : SemVer) : Prop :=
  a.major = b.major → a.minor = b.minor → a.patch = b.patch → SemVer.PreAgree a.pre b.pre

theorem lt_ofSemVer_iff {a b : SemVer} :
    ((ofSemVer a).lt (ofSemVer b) = true ↔ a.Precedes b) ↔ PrecedenceAgrees a b := by
  rw [lt_iff, SemVer.Precedes, PrecedenceAgrees]
  simp only [ofSemVer, Int.ofNat_lt, Int.ofNat_inj]
  by_cases hmajor : a.major = b.major
  case neg => simp [hmajor]
  by_cases hminor : a.minor = b.minor
  case neg => simp [hmajor, hminor]
  by_cases hpatch : a.patch = b.patch
  case neg => simp [hmajor, hminor, hpatch]
  simp only [hmajor, hminor, hpatch, lt_irrefl, false_or, true_and, forall_const]
  exact SemVer.preText_lt_iff_preBelow a.pre b.pre

/-- Two semantic versions are compared by precedence exactly if their numbers differ, or both are without a
pre-release, or neither is and the identifiers at which the pre-releases first differ agree. -/
theorem orderedByPrecedence_iff {a b : SemVer} (ha : Small a) (hb : Small b) :
    OrderedByPrecedence a b ↔ PrecedenceAgrees a b := by
  rw [← lt_ofSemVer_iff]
  constructor
  · rintro ⟨v, w, hv, hw, horder, -⟩
    rw [parse_spelling ha, Except.ok.injEq] at hv
    rw [parse_spelling hb, Except.ok.injEq] at hw
    rwa [hv, hw]
  · intro horder
    exact ⟨_, _, parse_spelling ha, parse_spelling hb, horder, consistent _ _⟩

/-- `1.0.0-1` and `1.0.0-1.2`. -/
theorem orderedByPrecedence_longer :
    OrderedByPrecedence { major := 1, minor := 0, patch := 0, pre := [.numeric 1] }
      { major := 1, minor := 0, patch := 0, pre := [.numeric 1, .numeric 2] } :=
  (orderedByPrecedence_iff ⟨by decide, by decide, by decide⟩ ⟨by decide, by decide, by decide⟩).mpr
    fun _ _ _ => (SemVer.preAgree_append (List.cons_ne_nil _ _) rfl).1

/-- `1.0.0` comes before its pre-release `1.0.0-1`. -/
theorem release_below_preRelease :
    ¬OrderedByPrecedence { major := 1, minor := 0, patch := 0 }
      { major := 1, minor := 0, patch := 0, pre := [.numeric 1] } := by
  rintro ⟨v, w, hv, hw, horder, -⟩
  have hrelease : parse (SemVer.spelling { major := 1, minor := 0, patch := 0 }) = .ok { mMajor := 1 } := by
    decide
  have hpre : parse (SemVer.spelling { major := 1, minor := 0, patch := 0, pre := [.numeric 1] }) =
      .ok { mMajor := 1, mPre := ['1'] } := by
    decide
  rw [hrelease, Except.ok.injEq] at hv
  rw [hpre, Except.ok.injEq] at hw
  subst hv hw
  have hprecedes := horder.mp (by decide)
  simp [SemVer.Precedes, SemVer.PreBelow] at hprecedes

end Version

end SoulCoreKit.Core
