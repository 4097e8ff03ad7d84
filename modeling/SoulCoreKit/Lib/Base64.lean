import Mathlib.Data.List.Basic
import Mathlib.Algebra.Group.Nat.Defs

/-!
# Base64

The standard alphabet with padding. The decoder collects six bits from each character of the alphabet,
skips every other character and drops the bits that do not fill a byte.
-/

namespace SoulCoreKit.Base64

def alphabet : List Char :=
  "ABCDEFGHIJKLMNOPQRSTUVWXYZabcdefghijklmnopqrstuvwxyz0123456789+/".toList

def digit (n : Nat) : Char := alphabet.getD n '='

def value (c : Char) : Option Nat := alphabet.idxOf? c

def encode : List UInt8 → List Char
  | [] => []
  | [a] => [digit (a.toNat / 4), digit (a.toNat % 4 * 16), '=', '=']
  | [a, b] =>
      [digit (a.toNat / 4), digit (a.toNat % 4 * 16 + b.toNat / 16), digit (b.toNat % 16 * 4), '=']
  | a :: b :: c :: rest =>
      digit (a.toNat / 4) :: digit (a.toNat % 4 * 16 + b.toNat / 16) ::
        digit (b.toNat % 16 * 4 + c.toNat / 64) :: digit (c.toNat % 64) :: encode rest

/-- The decoder with the bits that wait for more, and their number. -/
def decodeFrom (bits count : Nat) : List Char → List UInt8
  | [] => []
  | c :: rest =>
      match value c with
      | none => decodeFrom bits count rest
      | some n =>
          if count + 6 ≥ 8 then
            UInt8.ofNat ((bits * 64 + n) / 2 ^ (count - 2)) ::
              decodeFrom ((bits * 64 + n) % 2 ^ (count - 2)) (count - 2) rest
          else
            decodeFrom (bits * 64 + n) (count + 6) rest

def decode (text : List Char) : List UInt8 := decodeFrom 0 0 text

/-- The alphabet, without the text around it. -/
theorem alphabet_eq : alphabet =
    ['A', 'B', 'C', 'D', 'E', 'F', 'G', 'H', 'I', 'J', 'K', 'L', 'M', 'N', 'O', 'P', 'Q', 'R', 'S', 'T',
      'U', 'V', 'W', 'X', 'Y', 'Z', 'a', 'b', 'c', 'd', 'e', 'f', 'g', 'h', 'i', 'j', 'k', 'l', 'm', 'n',
      'o', 'p', 'q', 'r', 's', 't', 'u', 'v', 'w', 'x', 'y', 'z', '0', '1', '2', '3', '4', '5', '6', '7',
      '8', '9', '+', '/'] :=
  String.toList_ofList

theorem value_digit {n : Nat} (hn : n < 64) : value (digit n) = some n := by
  have hall : ∀ m : Fin 64, value (digit m) = some m.val := by
    unfold value digit
    rw [alphabet_eq]
    decide +kernel
  exact hall ⟨n, hn⟩

theorem value_padding : value '=' = none := by
  rw [value, alphabet_eq]
  decide +kernel

theorem decodeFrom_padding (bits count : Nat) (rest : List Char) :
    decodeFrom bits count ('=' :: rest) = decodeFrom bits count rest := by
  rw [decodeFrom, value_padding]

theorem decodeFrom_digit_wait {n : Nat} (hn : n < 64) (bits : Nat) (rest : List Char) :
    decodeFrom bits 0 (digit n :: rest) = decodeFrom (bits * 64 + n) 6 rest := by
  rw [decodeFrom, value_digit hn]
  rfl

theorem decodeFrom_digit_emit {n count : Nat} (hn : n < 64) (hcount : 2 ≤ count) (bits : Nat)
    (rest : List Char) :
    decodeFrom bits count (digit n :: rest) =
      UInt8.ofNat ((bits * 64 + n) / 2 ^ (count - 2)) ::
        decodeFrom ((bits * 64 + n) % 2 ^ (count - 2)) (count - 2) rest := by
  rw [decodeFrom, value_digit hn]
  exact if_pos (by omega)

theorem ofNat_eq {byte : UInt8} {n : Nat} (h : n = byte.toNat) : UInt8.ofNat n = byte := by
  rw [h]
  exact UInt8.ofNat_toNat

/-- Two digits make the first byte of a group; four bits are left over. -/
theorem decodeFrom_first {a : UInt8} {high : Nat} (hhigh : high < 16) (rest : List Char) :
    decodeFrom 0 0 (digit (a.toNat / 4) :: digit (a.toNat % 4 * 16 + high) :: rest) =
      a :: decodeFrom high 4 rest := by
  have ha := a.toNat_lt
  have hbits : (0 * 64 + a.toNat / 4) * 64 + (a.toNat % 4 * 16 + high) = a.toNat * 16 + high := by omega
  rw [decodeFrom_digit_wait (by omega), decodeFrom_digit_emit (by omega) (by omega), hbits]
  have hbyte : (a.toNat * 16 + high) / 2 ^ (6 - 2) = a.toNat := by omega
  have hleft : (a.toNat * 16 + high) % 2 ^ (6 - 2) = high := by omega
  rw [ofNat_eq hbyte, hleft]

/-- One digit more makes the second byte; two bits are left over. -/
theorem decodeFrom_second {b : UInt8} {high : Nat} (hhigh : high < 4) (rest : List Char) :
    decodeFrom (b.toNat / 16) 4 (digit (b.toNat % 16 * 4 + high) :: rest) =
      b :: decodeFrom high 2 rest := by
  have hb := b.toNat_lt
  have hbits : b.toNat / 16 * 64 + (b.toNat % 16 * 4 + high) = b.toNat * 4 + high := by omega
  rw [decodeFrom_digit_emit (by omega) (by omega), hbits]
  have hbyte : (b.toNat * 4 + high) / 2 ^ (4 - 2) = b.toNat := by omega
  have hleft : (b.toNat * 4 + high) % 2 ^ (4 - 2) = high := by omega
  rw [ofNat_eq hbyte, hleft]

theorem decodeFrom_third (c : UInt8) (rest : List Char) :
    decodeFrom (c.toNat / 64) 2 (digit (c.toNat % 64) :: rest) = c :: decodeFrom 0 0 rest := by
  have hc := c.toNat_lt
  have hbits : c.toNat / 64 * 64 + c.toNat % 64 = c.toNat := by omega
  rw [decodeFrom_digit_emit (by omega) (by omega), hbits]
  have hbyte : c.toNat / 2 ^ (2 - 2) = c.toNat := by omega
  have hleft : c.toNat % 2 ^ (2 - 2) = 0 := by omega
  rw [ofNat_eq hbyte, hleft]

theorem decode_encode (data : List UInt8) : decode (encode data) = data := by
  unfold decode
  induction data using encode.induct with
  | case1 => rfl
  | case2 a =>
    have hfirst := @decodeFrom_first a 0 (by omega) ['=', '=']
    rw [encode, ← Nat.add_zero (a.toNat % 4 * 16), hfirst, decodeFrom_padding, decodeFrom_padding,
      decodeFrom]
  | case3 a b =>
    have hb := b.toNat_lt
    rw [encode, decodeFrom_first (by omega), ← Nat.add_zero (b.toNat % 16 * 4),
      decodeFrom_second (by omega), decodeFrom_padding, decodeFrom]
  | case4 a b c rest ih =>
    have hb := b.toNat_lt
    have hc := c.toNat_lt
    rw [encode, decodeFrom_first (by omega), decodeFrom_second (by omega), decodeFrom_third, ih]

theorem digit_mem (n : Nat) : digit n ∈ '=' :: alphabet := by
  rw [digit, List.getD_eq_getElem?_getD]
  cases hfound : alphabet[n]? with
  | none => exact List.mem_cons_self
  | some c => exact List.mem_cons_of_mem _ (List.mem_of_getElem? hfound)

/-- An encoded text has characters of the alphabet and padding only. -/
theorem encode_mem {data : List UInt8} {c : Char} (hmem : c ∈ encode data) : c ∈ '=' :: alphabet := by
  have hpadding : '=' ∈ '=' :: alphabet := List.mem_cons_self
  induction data using encode.induct with
  | case1 => cases hmem
  | case2 a =>
    simp only [encode, List.mem_cons, List.not_mem_nil, or_false] at hmem
    rcases hmem with rfl | rfl | rfl | rfl
    · exact digit_mem _
    · exact digit_mem _
    · exact hpadding
    · exact hpadding
  | case3 a b =>
    simp only [encode, List.mem_cons, List.not_mem_nil, or_false] at hmem
    rcases hmem with rfl | rfl | rfl | rfl
    · exact digit_mem _
    · exact digit_mem _
    · exact digit_mem _
    · exact hpadding
  | case4 a b c rest ih =>
    simp only [encode, List.mem_cons] at hmem
    rcases hmem with rfl | rfl | rfl | rfl | hrest
    · exact digit_mem _
    · exact digit_mem _
    · exact digit_mem _
    · exact digit_mem _
    · exact ih hrest

/-! ### The alphabet for URLs -/

/-- The alphabet for URLs has other characters for the last two digits. -/
def urlChar (c : Char) : Char := if c = '+' then '-' else if c = '/' then '_' else c

/-- The encoding for URLs, without padding. -/
def encodeUrl (data : List UInt8) : List Char := ((encode data).filter (· ≠ '=')).map urlChar

/-- A character of the alphabet for URLs. -/
def isUrlChar (c : Char) : Bool := c.isAlphanum || c = '-' || c = '_'

theorem decodeFrom_filter (bits count : Nat) (text : List Char) :
    decodeFrom bits count (text.filter (· ≠ '=')) = decodeFrom bits count text := by
  induction text generalizing bits count with
  | nil => rfl
  | cons c text ih =>
    by_cases hc : c = '='
    · subst hc
      rw [List.filter_cons_of_neg (by simp), decodeFrom_padding, ih]
    · rw [List.filter_cons_of_pos (by simpa using hc), decodeFrom, decodeFrom]
      cases value c with
      | none => exact ih bits count
      | some n =>
        simp only
        split
        · rw [ih]
        · exact ih _ _

theorem decode_padded (text : List Char) (k : Nat) : decode (text ++ List.replicate k '=') = decode text := by
  have hpadding : (List.replicate k '=').filter (· ≠ '=') = [] := by
    rw [List.filter_eq_nil_iff]
    intro c hc
    simp [List.eq_of_mem_replicate hc]
  rw [decode, ← decodeFrom_filter, List.filter_append, hpadding, List.append_nil, decodeFrom_filter, decode]

theorem encodeUrl_isUrlChar {data : List UInt8} {c : Char} (hmem : c ∈ encodeUrl data) :
    isUrlChar c = true := by
  obtain ⟨d, hd, rfl⟩ := List.mem_map.mp hmem
  obtain ⟨hd, hne⟩ := List.mem_filter.mp hd
  have hall : (('=' :: alphabet).all fun d => d == '=' || isUrlChar (urlChar d)) = true := by
    rw [alphabet_eq]
    decide +kernel
  have hurl := List.all_eq_true.mp hall d (encode_mem hd)
  rw [Bool.or_eq_true, beq_iff_eq] at hurl
  exact hurl.resolve_left (by simpa using hne)

/-- Where the two alphabets agree, the standard decoder reads the encoding for URLs. -/
theorem decode_encodeUrl {data : List UInt8} (hminus : '-' ∉ encodeUrl data) (hunder : '_' ∉ encodeUrl data) :
    decode (encodeUrl data) = data := by
  have hsame : (encode data).filter (· ≠ '=') = encodeUrl data := by
    conv_lhs => rw [← List.map_id ((encode data).filter (· ≠ '='))]
    apply List.map_congr_left
    intro c hc
    have hplus : c ≠ '+' := by
      rintro rfl
      exact hminus (List.mem_map.mpr ⟨'+', hc, rfl⟩)
    have hslash : c ≠ '/' := by
      rintro rfl
      exact hunder (List.mem_map.mpr ⟨'/', hc, rfl⟩)
    rw [urlChar, if_neg hplus, if_neg hslash, id]
  rw [← hsame, decode, decodeFrom_filter]
  exact decode_encode data

end SoulCoreKit.Base64
