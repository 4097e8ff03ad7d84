import Mathlib.Data.List.Basic

/-!
# Encodings of text

Texts are lists of characters. The decoders are total: what is no encoding of a character is replaced. On
what encodes a text they give that text, so a list of units is the encoding of some text exactly if it
survives being decoded and encoded again.
-/

namespace SoulCoreKit.Unicode

/-! ### UTF-16 -/

def utf16Char (c : Char) : List UInt16 :=
  if c.toNat < 0x10000 then [UInt16.ofNat c.toNat]
  else [UInt16.ofNat (0xD800 + (c.toNat - 0x10000) / 0x400),
    UInt16.ofNat (0xDC00 + (c.toNat - 0x10000) % 0x400)]

def utf16 (text : List Char) : List UInt16 := text.flatMap utf16Char

def isHigh (unit : UInt16) : Bool := 0xD800 ≤ unit.toNat && unit.toNat < 0xDC00

def isLow (unit : UInt16) : Bool := 0xDC00 ≤ unit.toNat && unit.toNat < 0xE000

/-- A unit that is not part of a pair. -/
def ofUnit (replacement : Char) (unit : UInt16) : Char :=
  if isHigh unit || isLow unit then replacement else Char.ofNat unit.toNat

def ofPair (high low : UInt16) : Char :=
  Char.ofNat (0x10000 + (high.toNat - 0xD800) * 0x400 + (low.toNat - 0xDC00))

def ofUtf16 (replacement : Char) : List UInt16 → List Char
  | [] => []
  | [unit] => [ofUnit replacement unit]
  | unit :: next :: rest =>
      if isHigh unit && isLow next then ofPair unit next :: ofUtf16 replacement rest
      else ofUnit replacement unit :: ofUtf16 replacement (next :: rest)

theorem ofUtf16_cons {unit : UInt16} (hunit : isHigh unit = false) (replacement : Char)
    (rest : List UInt16) :
    ofUtf16 replacement (unit :: rest) =
      ofUnit replacement unit :: ofUtf16 replacement rest := by
  cases rest with
  | nil => rfl
  | cons next rest => simp [ofUtf16, hunit]

theorem valid_toNat (c : Char) : c.toNat < 0xD800 ∨ 0xDFFF < c.toNat ∧ c.toNat < 0x110000 := c.valid

theorem ofUtf16_utf16Char (replacement c : Char) (rest : List UInt16) :
    ofUtf16 replacement (utf16Char c ++ rest) = c :: ofUtf16 replacement rest := by
  have hvalid := valid_toNat c
  unfold utf16Char
  by_cases hsmall : c.toNat < 0x10000
  · have htoNat : (UInt16.ofNat c.toNat).toNat = c.toNat := by simp; omega
    have hhigh : isHigh (UInt16.ofNat c.toNat) = false := by
      simp only [isHigh, htoNat, Bool.and_eq_false_iff, decide_eq_false_iff_not]
      omega
    have hlow : isLow (UInt16.ofNat c.toNat) = false := by
      simp only [isLow, htoNat, Bool.and_eq_false_iff, decide_eq_false_iff_not]
      omega
    rw [if_pos hsmall, List.singleton_append, ofUtf16_cons hhigh]
    simp [ofUnit, hhigh, hlow, htoNat, Char.ofNat_toNat]
  · have hhighNat : (UInt16.ofNat (0xD800 + (c.toNat - 0x10000) / 0x400)).toNat =
        0xD800 + (c.toNat - 0x10000) / 0x400 := by
      simp
      omega
    have hlowNat : (UInt16.ofNat (0xDC00 + (c.toNat - 0x10000) % 0x400)).toNat =
        0xDC00 + (c.toNat - 0x10000) % 0x400 := by
      simp
      omega
    have hhigh : isHigh (UInt16.ofNat (0xD800 + (c.toNat - 0x10000) / 0x400)) = true := by
      simp only [isHigh, hhighNat, Bool.and_eq_true, decide_eq_true_eq]
      omega
    have hlow : isLow (UInt16.ofNat (0xDC00 + (c.toNat - 0x10000) % 0x400)) = true := by
      simp only [isLow, hlowNat, Bool.and_eq_true, decide_eq_true_eq]
      omega
    have hpair : 0x10000 + (0xD800 + (c.toNat - 0x10000) / 0x400 - 0xD800) * 0x400 +
        (0xDC00 + (c.toNat - 0x10000) % 0x400 - 0xDC00) = c.toNat := by
      omega
    rw [if_neg hsmall]
    simp only [List.cons_append, List.nil_append, ofUtf16, hhigh, hlow, Bool.and_self, if_true,
      ofPair, hhighNat, hlowNat, hpair, Char.ofNat_toNat]

theorem ofUtf16_utf16 (replacement : Char) (text : List Char) :
    ofUtf16 replacement (utf16 text) = text := by
  induction text with
  | nil => rfl
  | cons c text ih =>
      rw [utf16, List.flatMap_cons, ofUtf16_utf16Char]
      exact congrArg (c :: ·) ih

/-! ### UTF-8 -/

def utf8 (text : List Char) : List UInt8 := text.flatMap String.utf8EncodeChar

theorem utf8EncodeChar_of_ascii {c : Char} (hc : c.toNat < 128) :
    String.utf8EncodeChar c = [UInt8.ofNat c.toNat] := by
  have hle : c.val.toNat ≤ 127 := Nat.le_of_lt_succ hc
  simp only [String.utf8EncodeChar, hle, if_true]
  rfl

theorem utf8EncodeChar_of_not_ascii {c : Char} (hc : 128 ≤ c.toNat) :
    ∃ byte rest, String.utf8EncodeChar c = byte :: rest ∧ 128 ≤ byte.toNat := by
  have hgt : ¬ c.val.toNat ≤ 127 := Nat.not_le.mpr hc
  simp only [String.utf8EncodeChar, hgt, if_false]
  split
  · exact ⟨_, _, rfl, by simp; omega⟩
  · split
    · exact ⟨_, _, rfl, by simp; omega⟩
    · exact ⟨_, _, rfl, by simp; omega⟩

/-- Every byte of a character that is not ASCII is above those of ASCII. -/
theorem le_of_mem_utf8EncodeChar {c : Char} (hc : 128 ≤ c.toNat) {byte : UInt8}
    (hbyte : byte ∈ String.utf8EncodeChar c) : 128 ≤ byte.toNat := by
  have hgt : ¬ c.val.toNat ≤ 127 := Nat.not_le.mpr hc
  simp only [String.utf8EncodeChar, hgt, if_false] at hbyte
  split at hbyte
  · rcases List.mem_cons.mp hbyte with rfl | hbyte
    · simp
      omega
    · obtain rfl := List.mem_singleton.mp hbyte
      simp
      omega
  · split at hbyte <;>
    · simp only [List.mem_cons, List.not_mem_nil, or_false] at hbyte
      rcases hbyte with rfl | rfl | rfl | rfl <;> (simp; omega)

/-- Where the byte of an ASCII character stands, there stands this character. -/
theorem utf8_eq_append_cons {separator : Char} (hseparator : separator.toNat < 128) {text : List Char}
    {front rest : List UInt8} (hutf8 : utf8 text = front ++ UInt8.ofNat separator.toNat :: rest) :
    ∃ first second, text = first ++ separator :: second ∧ front = utf8 first ∧ rest = utf8 second := by
  induction text generalizing front with
  | nil => exact absurd hutf8 (by simp [utf8])
  | cons c text ih =>
      have hcons : utf8 (c :: text) = String.utf8EncodeChar c ++ utf8 text := List.flatMap_cons
      have hlater {front' : List UInt8} (hfront : front = String.utf8EncodeChar c ++ front')
          (htext : utf8 text = front' ++ UInt8.ofNat separator.toNat :: rest) :
          ∃ first second, c :: text = first ++ separator :: second ∧ front = utf8 first ∧
            rest = utf8 second := by
        obtain ⟨first, second, rfl, rfl, hsecond⟩ := ih htext
        exact ⟨c :: first, second, rfl, hfront.trans List.flatMap_cons.symm, hsecond⟩
      rw [hcons, List.append_eq_append_iff] at hutf8
      obtain ⟨front', hfront, htext⟩ | ⟨within, hchar, hrest⟩ := hutf8
      · exact hlater hfront htext
      cases within with
      | nil =>
          rw [List.append_nil] at hchar
          exact hlater (hchar.symm.trans (List.append_nil _).symm) hrest.symm
      | cons byte within =>
          obtain ⟨hbyte, htail⟩ := List.cons.inj hrest
          by_cases hascii : c.toNat < 128
          · rw [utf8EncodeChar_of_ascii hascii, List.singleton_eq_append_iff] at hchar
            obtain ⟨rfl, hone⟩ | ⟨-, hnone⟩ := hchar
            · obtain ⟨rfl, rfl⟩ := List.cons.inj hone
              have hsame : c = separator := by
                have hnat := congrArg UInt8.toNat hbyte
                simp only [UInt8.toNat_ofNat'] at hnat
                exact Char.toNat_inj.mp (by omega)
              subst hsame
              exact ⟨[], text, rfl, rfl, htail⟩
            · cases hnone
          · have hhigh := le_of_mem_utf8EncodeChar (Nat.not_lt.mp hascii)
              (hchar ▸ List.mem_append_right front List.mem_cons_self)
            rw [← hbyte] at hhigh
            simp only [UInt8.toNat_ofNat'] at hhigh
            omega

/-- The character at the front of the bytes. -/
def firstChar (bytes : List UInt8) : Option Char := bytes.toByteArray.utf8DecodeChar? 0

/-- The decoder, with the number of bytes that belong to the last character. A byte where no character
begins is replaced. -/
def ofUtf8From (replacement : Char) : Nat → List UInt8 → List Char
  | _, [] => []
  | skip + 1, _ :: rest => ofUtf8From replacement skip rest
  | 0, byte :: rest =>
      match firstChar (byte :: rest) with
      | some c => c :: ofUtf8From replacement (c.utf8Size - 1) rest
      | none => replacement :: ofUtf8From replacement 0 rest

def ofUtf8 (replacement : Char) (bytes : List UInt8) : List Char := ofUtf8From replacement 0 bytes

theorem ofUtf8From_append (replacement : Char) (skipped rest : List UInt8) :
    ofUtf8From replacement skipped.length (skipped ++ rest) = ofUtf8 replacement rest := by
  induction skipped with
  | nil => rfl
  | cons byte skipped ih => exact ih

theorem firstChar_utf8EncodeChar (c : Char) (rest : List UInt8) :
    firstChar (String.utf8EncodeChar c ++ rest) = some c := by
  unfold firstChar
  rw [List.toByteArray_append]
  exact ByteArray.utf8DecodeChar?_utf8EncodeChar_append

/-- Only the encoding of a character has this character at the front. -/
theorem firstChar_eq_some {c : Char} {bytes : List UInt8} (hfirst : firstChar bytes = some c) :
    ∃ rest, bytes = String.utf8EncodeChar c ++ rest := by
  obtain ⟨rest, hbytes⟩ := ByteArray.exists_of_utf8DecodeChar?_eq_some hfirst
  refine ⟨rest.data.toList, ?_⟩
  have hdata := congrArg (fun array : ByteArray => array.data.toList) hbytes
  simpa using hdata

theorem ofUtf8_utf8EncodeChar (replacement c : Char) (rest : List UInt8) :
    ofUtf8 replacement (String.utf8EncodeChar c ++ rest) = c :: ofUtf8 replacement rest := by
  have hfirst := firstChar_utf8EncodeChar c rest
  have hlength := String.length_utf8EncodeChar c
  cases hbytes : String.utf8EncodeChar c with
  | nil =>
      rw [hbytes] at hlength
      exact absurd hlength.symm (Nat.ne_of_gt c.utf8Size_pos)
  | cons byte bytes =>
      rw [hbytes] at hfirst hlength
      have hskip : c.utf8Size - 1 = bytes.length := by
        rw [← hlength]
        rfl
      rw [List.cons_append] at hfirst ⊢
      rw [ofUtf8, ofUtf8From, hfirst]
      simp only [hskip, ofUtf8From_append]

theorem ofUtf8_utf8 (replacement : Char) (text : List Char) :
    ofUtf8 replacement (utf8 text) = text := by
  induction text with
  | nil => rfl
  | cons c text ih =>
      rw [utf8, List.flatMap_cons, ofUtf8_utf8EncodeChar]
      exact congrArg (c :: ·) ih

end SoulCoreKit.Unicode
