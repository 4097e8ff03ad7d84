import Mathlib.Algebra.Order.Floor.Div

/-!
# HMAC and PBKDF2

The two standards over any hash function and any pseudorandom function of a password and a text. A key that is
derived is a prefix of the blocks, whatever their number, so that an implementation may stop after any block
that completes it.
-/

namespace SoulCoreKit.Lib

abbrev Octets := List UInt8

/-- The exclusive or of two strings of one length. -/
def xorOctets (first second : Octets) : Octets := first.zipWith (· ^^^ ·) second

theorem xorOctets_replicate (octets : Octets) (octet : UInt8) {n : Nat} (hlength : octets.length = n) :
    xorOctets octets (List.replicate n octet) = octets.map (· ^^^ octet) := by
  subst hlength
  induction octets with
  | nil => rfl
  | cons first rest ih => exact congrArg ((first ^^^ octet) :: ·) ih

namespace Hmac

variable (hash : Octets → Octets) (blockLength : Nat)

/-- The key with zeros after it, as long as a block. A key longer than a block is hashed first. -/
def blockKey (key : Octets) : Octets :=
  (if key.length ≤ blockLength then key else hash key).rightpad blockLength 0

def ipad : Octets := List.replicate blockLength 0x36

def opad : Octets := List.replicate blockLength 0x5C

def hmac (key text : Octets) : Octets :=
  hash (xorOctets (blockKey hash blockLength key) (opad blockLength) ++
    hash (xorOctets (blockKey hash blockLength key) (ipad blockLength) ++ text))

variable {hash blockLength}

theorem length_blockKey (hhash : ∀ text, (hash text).length ≤ blockLength) (key : Octets) :
    (blockKey hash blockLength key).length = blockLength := by
  unfold blockKey
  rw [List.length_rightpad]
  split
  · rename_i hshort
    exact Nat.max_eq_left hshort
  · exact Nat.max_eq_left (hhash key)

end Hmac

namespace Pbkdf2

/-- A number in four octets, the most significant one first. -/
def int (i : Nat) : Octets := (List.range 4).reverse.map fun octet => UInt8.ofNat (i / 256 ^ octet % 256)

variable (prf : Octets → Octets → Octets) (length : Nat) (password salt : Octets) (iterations : Nat)

/-- `U_(j+1)` of a block that begins with this text. -/
def chain (text : Octets) : Nat → Octets
  | 0 => prf password text
  | j + 1 => prf password (chain text j)

/-- The exclusive or of strings, of which there is one at least. -/
def exclusiveOr : List Octets → Octets
  | [] => []
  | first :: rest => rest.foldl xorOctets first

/-- The function `F`: the block with this number. -/
def block (i : Nat) : Octets :=
  exclusiveOr ((List.range iterations).map (chain prf password (salt ++ int i)))

/-- `T_1` to `T_n`, one after the other. -/
def blocks (n : Nat) : Octets := (List.range n).flatMap fun i => block prf password salt iterations (i + 1)

/-- The derived key, from octets of `prf` of this length. `none` is "derived key too long". -/
def pbkdf2 (keyLength : Nat) : Option Octets :=
  if keyLength > (2 ^ 32 - 1) * length then none
  else
    let l := keyLength ⌈/⌉ length
    let r := keyLength - (l - 1) * length
    some (blocks prf password salt iterations (l - 1) ++ (block prf password salt iterations l).take r)

variable {prf length password salt iterations}

theorem length_chain (hprf : ∀ key text, (prf key text).length = length) (text : Octets) (j : Nat) :
    (chain prf password text j).length = length := by
  cases j with
  | zero => exact hprf password text
  | succ j => exact hprf password _

theorem length_foldl_xorOctets {rest : List Octets} (hrest : ∀ octets ∈ rest, octets.length = length)
    {first : Octets} (hfirst : first.length = length) : (rest.foldl xorOctets first).length = length := by
  induction rest generalizing first with
  | nil => exact hfirst
  | cons next rest ih =>
      obtain ⟨hnext, hrest⟩ := List.forall_mem_cons.mp hrest
      apply ih hrest
      rw [xorOctets, List.length_zipWith, hfirst, hnext, Nat.min_self]

theorem length_block (hprf : ∀ key text, (prf key text).length = length) (hiterations : 1 ≤ iterations)
    (i : Nat) : (block prf password salt iterations i).length = length := by
  obtain ⟨rounds, rfl⟩ := Nat.exists_eq_add_of_le' hiterations
  rw [block, List.range_succ_eq_map, List.map_cons, exclusiveOr]
  refine length_foldl_xorOctets ?_ (length_chain hprf _ 0)
  intro octets hoctets
  obtain ⟨j, -, rfl⟩ := List.mem_map.mp hoctets
  exact length_chain hprf _ j

theorem blocks_succ (n : Nat) :
    blocks prf password salt iterations (n + 1) =
      blocks prf password salt iterations n ++ block prf password salt iterations (n + 1) := by
  rw [blocks, List.range_succ, List.flatMap_append, List.flatMap_singleton, blocks]

theorem length_blocks (hprf : ∀ key text, (prf key text).length = length) (hiterations : 1 ≤ iterations)
    (n : Nat) : (blocks prf password salt iterations n).length = n * length := by
  induction n with
  | zero => exact (Nat.zero_mul length).symm
  | succ n ih => rw [blocks_succ, List.length_append, ih, length_block hprf hiterations, Nat.succ_mul]

/-- More blocks go on from fewer. -/
theorem blocks_prefix {m n : Nat} (hle : m ≤ n) :
    blocks prf password salt iterations m <+: blocks prf password salt iterations n := by
  induction n, hle using Nat.le_induction with
  | base => exact List.prefix_rfl
  | succ n hle ih =>
      rw [blocks_succ]
      exact ih.trans (List.prefix_append _ _)

/-- Where fewer blocks are enough, more of them give the same key. -/
theorem take_blocks (hprf : ∀ key text, (prf key text).length = length) (hiterations : 1 ≤ iterations)
    {keyLength m n : Nat} (hle : m ≤ n) (henough : keyLength ≤ m * length) :
    (blocks prf password salt iterations n).take keyLength =
      (blocks prf password salt iterations m).take keyLength := by
  have hfront : blocks prf password salt iterations m <+: blocks prf password salt iterations n :=
    blocks_prefix hle
  obtain ⟨rest, hrest⟩ := hfront
  rw [← hrest, List.take_append_of_le_length]
  rwa [length_blocks hprf hiterations]

/-- A key that goes beyond the first blocks, from these and the next one. -/
theorem take_blocks_succ (hprf : ∀ key text, (prf key text).length = length) (hiterations : 1 ≤ iterations)
    {keyLength n : Nat} (hbeyond : n * length ≤ keyLength) :
    (blocks prf password salt iterations (n + 1)).take keyLength =
      blocks prf password salt iterations n ++
        (block prf password salt iterations (n + 1)).take (keyLength - n * length) := by
  have hwhole : (blocks prf password salt iterations n).take keyLength =
      blocks prf password salt iterations n :=
    List.take_of_length_le (by rwa [length_blocks hprf hiterations])
  rw [blocks_succ, List.take_append, hwhole, length_blocks hprf hiterations]

/-- The derived key is a prefix of as many blocks as are enough. -/
theorem pbkdf2_eq_take (hprf : ∀ key text, (prf key text).length = length) (hlength : 0 < length)
    (hiterations : 1 ≤ iterations) {keyLength n : Nat} (hlong : keyLength ≤ (2 ^ 32 - 1) * length)
    (henough : keyLength ≤ n * length) :
    pbkdf2 prf length password salt iterations keyLength =
      some ((blocks prf password salt iterations n).take keyLength) := by
  have hcover : keyLength ≤ length * (keyLength ⌈/⌉ length) := le_smul_ceilDiv hlength
  have hleast : ∀ m, keyLength ≤ length * m → keyLength ⌈/⌉ length ≤ m :=
    fun m => (ceilDiv_le_iff_le_mul hlength).mpr
  have hle := hleast n (by rwa [Nat.mul_comm])
  rw [pbkdf2, if_neg (Nat.not_lt.mpr hlong)]
  generalize keyLength ⌈/⌉ length = l at hcover hleast hle
  change some (blocks prf password salt iterations (l - 1) ++
    (block prf password salt iterations l).take (keyLength - (l - 1) * length)) = some _
  refine congrArg some ?_
  cases l with
  | zero =>
      obtain rfl : keyLength = 0 := by omega
      rw [Nat.zero_mul, Nat.sub_self, List.take_zero, List.take_zero]
      rfl
  | succ q =>
      -- The last block completes the key, and the ones before it do not.
      have hbefore : q * length ≤ keyLength := by
        by_contra hlt
        have hq := hleast q (by rw [Nat.mul_comm]; omega)
        omega
      rw [take_blocks hprf hiterations hle (by rwa [Nat.mul_comm]),
        take_blocks_succ hprf hiterations hbefore, Nat.add_sub_cancel]

end Pbkdf2

end SoulCoreKit.Lib
