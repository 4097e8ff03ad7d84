import Mathlib.Algebra.Group.Nat.Defs
import SoulCoreKit.Utils.JsonHelper

/-!
# Texts that survive

A `QString` that goes through a `std::string` loses a byte order mark at its front, and its lone surrogates
become question marks; everything else comes back. Bytes that go through a `QString` come back if they are
UTF-8 without a byte order mark.
-/

namespace SoulCoreKit.JsonHelper

open Unicode

def byteOrderMark : Char := '\uFEFF'

/-- A text without the byte order mark at its front. -/
def dropMark : List Char → List Char
  | [] => []
  | c :: rest => if c = byteOrderMark then rest else c :: rest

theorem dropMark_eq_self {text : List Char} (hmark : text.head? ≠ some byteOrderMark) :
    dropMark text = text := by
  cases text with
  | nil => rfl
  | cons c rest =>
      rw [dropMark, if_neg]
      simpa using hmark

/-- A text is longer than what is left of it without its mark. -/
theorem length_dropMark_lt {text : List Char} (hmark : text.head? = some byteOrderMark) :
    (dropMark text).length < text.length := by
  cases text with
  | nil => exact absurd hmark (by simp)
  | cons c rest =>
      obtain rfl : c = byteOrderMark := by simpa using hmark
      rw [dropMark, if_pos rfl]
      exact Nat.lt_succ_self _

theorem dropMark_ne_self {text : List Char} (hmark : text.head? = some byteOrderMark) :
    dropMark text ≠ text :=
  fun heq => absurd (congrArg List.length heq) (length_dropMark_lt hmark).ne

theorem utf8EncodeChar_mark : String.utf8EncodeChar byteOrderMark = [0xEF, 0xBB, 0xBF] := by
  decide

theorem fromUtf8_eq (bytes : QByteArray) :
    fromUtf8 bytes = utf16 (dropMark (ofUtf8 '\uFFFD' bytes)) := by
  unfold fromUtf8
  by_cases hmark : [0xEF, 0xBB, 0xBF].isPrefixOf bytes = true
  · rw [if_pos hmark]
    obtain ⟨rest, rfl⟩ := List.isPrefixOf_iff_prefix.mp hmark
    rw [← utf8EncodeChar_mark, ofUtf8_utf8EncodeChar, dropMark, if_pos rfl, utf8EncodeChar_mark]
    rfl
  · rw [if_neg hmark, dropMark_eq_self]
    intro hhead
    cases bytes with
    | nil => exact absurd hhead (by simp [ofUtf8, ofUtf8From])
    | cons byte bytes =>
        rw [ofUtf8, ofUtf8From] at hhead
        cases hfirst : firstChar (byte :: bytes) with
        | none =>
            rw [hfirst] at hhead
            exact absurd hhead (by simp [byteOrderMark])
        | some c =>
            rw [hfirst] at hhead
            obtain rfl : c = byteOrderMark := by simpa using hhead
            obtain ⟨rest, hbytes⟩ := firstChar_eq_some hfirst
            apply hmark
            rw [hbytes, utf8EncodeChar_mark, List.isPrefixOf_iff_prefix]
            exact List.prefix_append _ _

theorem fromStdString_eq (text : String) : fromStdString text = utf16 (dropMark text.toList) := by
  rw [fromStdString, fromUtf8_eq, ofUtf8_utf8]

/-- A text in UTF-16 that does not begin with a byte order mark. -/
def Faithful (text : QString) : Prop :=
  ∃ characters, text = utf16 characters ∧ characters.head? ≠ some byteOrderMark

theorem fromStdString_toStdString_iff (text : QString) :
    fromStdString (toStdString text) = text ↔ Faithful text := by
  rw [fromStdString_eq, toStdString, String.toList_ofList]
  constructor
  · intro hback
    have hsame : dropMark (ofUtf16 '?' text) = ofUtf16 '?' text := by
      conv_rhs => rw [← hback, ofUtf16_utf16]
    refine ⟨_, hback.symm, ?_⟩
    rw [hsame]
    exact fun hmark => dropMark_ne_self hmark hsame
  · rintro ⟨characters, rfl, hmark⟩
    rw [ofUtf16_utf16, dropMark_eq_self hmark]

/-! ### A library for one document -/

/-- Doubles that are not rounded, and one that is not finite. -/
def exactDoubles : DoubleOps (Option Rat) where
  value x := x
  ofInt n := some n
  toInt64 x := Int64.ofInt ((x.getD 0).num.tdiv (x.getD 0).den)
  asInteger x :=
    x.bind fun q => if q.den = 1 ∧ q.num.natAbs ≤ 2 ^ 53 then some (Int64.ofInt q.num) else none

/-- A library as it is on one document and its text. -/
def singleDocument {Double : Type} (ops : DoubleOps Double) (document : Json Double)
    (text : QByteArray) : JsonLibrary Double where
  dump _ := text
  dumpPretty _ := text
  parse data := if data = text then .ok (document.read ops) else .error (.parse_error "")

theorem singleDocument_undoes {Double : Type} (ops : DoubleOps Double) (document : Json Double)
    (text : QByteArray) : (singleDocument ops document text).Undoes ops document := by
  constructor <;> exact if_pos rfl

end SoulCoreKit.JsonHelper
