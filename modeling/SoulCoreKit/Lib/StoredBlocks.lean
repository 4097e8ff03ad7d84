import Mathlib.Data.List.Basic
import Mathlib.Data.Option.Basic
import Mathlib.Logic.Function.Iterate

/-!
# Streams of stored blocks

The simplest streams of the deflate format: the data is cut into blocks of at most 65535 bytes, each with
its length and the complement of the length before it. A wrapper puts a header before the blocks and a
checksum after them. Reading such a stream gives the data back.
-/

namespace SoulCoreKit.StoredBlocks

/-! ### Numbers -/

/-- A number in a given count of bytes, the lowest first. -/
def littleEndian : Nat → Nat → List UInt8
  | 0, _ => []
  | width + 1, n => UInt8.ofNat (n % 256) :: littleEndian width (n / 256)

theorem length_littleEndian (width n : Nat) : (littleEndian width n).length = width := by
  induction width generalizing n with
  | zero => rfl
  | succ width ih => simp [littleEndian, ih]

/-! ### Checksums -/

def adler32 (data : List UInt8) : Nat :=
  let sums := data.foldl (fun sums byte =>
    ((sums.1 + byte.toNat) % 65521, (sums.2 + sums.1 + byte.toNat) % 65521)) (1, 0)
  sums.2 * 65536 + sums.1

def crcShift (crc : UInt32) : UInt32 :=
  if crc &&& 1 = 1 then (crc >>> 1) ^^^ 0xEDB88320 else crc >>> 1

def crc32 (data : List UInt8) : Nat :=
  ((data.foldl (fun crc byte => crcShift^[8] (crc ^^^ byte.toUInt32)) 0xFFFFFFFF) ^^^
    0xFFFFFFFF).toNat

example : crc32 [0x31, 0x32, 0x33, 0x34, 0x35, 0x36, 0x37, 0x38, 0x39] = 0xCBF43926 := by
  decide +kernel

/-! ### Blocks -/

def block (final : Bool) (chunk : List UInt8) : List UInt8 :=
  (if final then 1 else 0) :: littleEndian 2 chunk.length ++
    littleEndian 2 (65535 - chunk.length) ++ chunk

/-- The data in full blocks and a last one. -/
def blocks : Nat → List UInt8 → List UInt8
  | 0, data => block true data
  | count + 1, data => block false (data.take 65535) ++ blocks count (data.drop 65535)

/-- How many full blocks come before the last one. -/
def fullBlocks (data : List UInt8) : Nat := (data.length - 1) / 65535

def parse : Nat → List UInt8 → Option (List UInt8 × List UInt8)
  | 0, _ => none
  | fuel + 1, flag :: l₀ :: l₁ :: n₀ :: n₁ :: rest =>
      let length := l₀.toNat + 256 * l₁.toNat
      if length + (n₀.toNat + 256 * n₁.toNat) = 65535 ∧ length ≤ rest.length then
        if flag = 1 then some (rest.take length, rest.drop length)
        else if flag = 0 then
          (parse fuel (rest.drop length)).map fun parsed => (rest.take length ++ parsed.1, parsed.2)
        else none
      else none
  | _, _ => none

theorem length_block (final : Bool) (chunk : List UInt8) :
    (block final chunk).length = chunk.length + 5 := by
  simp [block, length_littleEndian]
  omega

theorem length_blocks (count : Nat) (data : List UInt8) :
    (blocks count data).length = data.length + 5 * (count + 1) := by
  induction count generalizing data with
  | zero => simp [blocks, length_block]
  | succ count ih =>
      rw [blocks, List.length_append, length_block, ih, List.length_take, List.length_drop]
      omega

theorem parse_block (fuel : Nat) (final : Bool) {chunk : List UInt8} (hchunk : chunk.length ≤ 65535)
    (rest : List UInt8) :
    parse (fuel + 1) (block final chunk ++ rest) =
      if final then some (chunk, rest)
      else (parse fuel rest).map fun parsed => (chunk ++ parsed.1, parsed.2) := by
  have hlength : chunk.length % 256 + 256 * (chunk.length / 256 % 256) = chunk.length := by
    omega
  have hcomplement : chunk.length + ((65535 - chunk.length) % 256 +
      256 * ((65535 - chunk.length) / 256 % 256)) = 65535 := by
    omega
  cases final <;> simp [block, littleEndian, parse, hlength, hcomplement]

theorem parse_blocks {count : Nat} {data : List UInt8} (hdata : data.length ≤ 65535 * (count + 1))
    {fuel : Nat} (hfuel : count < fuel) (rest : List UInt8) :
    parse fuel (blocks count data ++ rest) = some (data, rest) := by
  obtain ⟨fuel, rfl⟩ : ∃ n, fuel = n + 1 := ⟨fuel - 1, by omega⟩
  induction count generalizing data fuel with
  | zero =>
      rw [blocks, parse_block fuel true (by omega)]
      rfl
  | succ count ih =>
      obtain ⟨fuel, rfl⟩ : ∃ n, fuel = n + 1 := ⟨fuel - 1, by omega⟩
      have hrest : (data.drop 65535).length ≤ 65535 * (count + 1) := by
        rw [List.length_drop]
        omega
      rw [blocks, List.append_assoc, parse_block (fuel + 1) false (List.length_take_le _ _),
        ih hrest fuel (by omega)]
      simp [List.take_append_drop]

/-! ### Wrappers -/

/-- What stands before the blocks, and after them for the data. -/
structure Wrapper where
  header : List UInt8
  trailer : List UInt8 → List UInt8

def zlib : Wrapper where
  header := [0x78, 0x01]
  trailer data := (littleEndian 4 (adler32 data)).reverse

def gzip : Wrapper where
  header := [0x1f, 0x8b, 8, 0, 0, 0, 0, 0, 4, 3]
  trailer data := littleEndian 4 (crc32 data) ++ littleEndian 4 data.length

def encode (wrapper : Wrapper) (data : List UInt8) : List UInt8 :=
  wrapper.header ++ (blocks (fullBlocks data) data ++ wrapper.trailer data)

def decode (wrapper : Wrapper) (stream : List UInt8) : Option (List UInt8) :=
  if stream.take wrapper.header.length = wrapper.header then
    match parse stream.length (stream.drop wrapper.header.length) with
    | none => none
    | some (data, rest) => if rest = wrapper.trailer data then some data else none
  else none

theorem length_encode (wrapper : Wrapper) (data : List UInt8) :
    (encode wrapper data).length = wrapper.header.length + (wrapper.trailer data).length +
      data.length + 5 * ((data.length - 1) / 65535 + 1) := by
  rw [encode, List.length_append, List.length_append, length_blocks, fullBlocks]
  omega

theorem decode_encode (wrapper : Wrapper) (data : List UInt8) :
    decode wrapper (encode wrapper data) = some data := by
  have hfuel : fullBlocks data < (encode wrapper data).length := by
    rw [length_encode, fullBlocks]
    omega
  have hdata : data.length ≤ 65535 * (fullBlocks data + 1) := by
    rw [fullBlocks]
    omega
  have hparse := parse_blocks hdata hfuel (wrapper.trailer data)
  unfold decode
  rw [if_pos (by simp [encode])]
  conv in (encode wrapper data).drop _ => rw [encode, List.drop_left]
  rw [hparse]
  simp

end SoulCoreKit.StoredBlocks
