import Mathlib.Algebra.Group.Nat.Defs
import SoulCoreKit.Auth.SecureStorage
import SoulCoreKit.Lib.KeyDerivation

/-!
# The derived key

The storage computes HMAC and PBKDF2 as the standards define them, whatever the hash function. After each
block, the key that is being derived is a prefix of the blocks of the standard.
-/

namespace SoulCoreKit.Auth

open Lib

variable (sha : Sha256) (password salt : Bytes) {iterations : Nat}

/-! ### HMAC -/

theorem length_hmacSha256 (data : Bytes) : (hmacSha256 sha password data).length = 32 :=
  sha.length_hash _

theorem keyBlock_eq (key : Bytes) :
    (if key.length > 64 then sha.hash key else key) ++
        List.replicate (64 - (if key.length > 64 then sha.hash key else key).length) 0 =
      Hmac.blockKey sha.hash 64 key := by
  unfold Hmac.blockKey List.rightpad
  by_cases hlong : key.length > 64
  · rw [if_pos hlong, if_neg (Nat.not_le.mpr hlong)]
  · rw [if_neg hlong, if_pos (Nat.not_lt.mp hlong)]

theorem hmacSha256_eq (key data : Bytes) : hmacSha256 sha key data = Hmac.hmac sha.hash 64 key data := by
  have hblock : (Hmac.blockKey sha.hash 64 key).length = 64 :=
    Hmac.length_blockKey (fun text => by rw [sha.length_hash]; decide) key
  unfold hmacSha256 Hmac.hmac Hmac.opad Hmac.ipad
  rw [xorOctets_replicate _ _ hblock, xorOctets_replicate _ _ hblock, ← keyBlock_eq]
  rfl

/-! ### PBKDF2 -/

theorem blockBytes_eq (i : Nat) : blockBytes i = Pbkdf2.int i := by
  have hoctet : ∀ n, UInt8.ofNat (n % 256) = UInt8.ofNat n := fun n => UInt8.toNat_inj.mp (by simp)
  have hpositions : (List.range 4).reverse = [3, 2, 1, 0] := rfl
  simp [Pbkdf2.int, blockBytes, hoctet, hpositions]

/-- The rounds that are left take the rest of the chain into the sum. -/
theorem pbkdf2Rounds_eq (text : Bytes) (rounds k : Nat) (t : Bytes) :
    pbkdf2Rounds sha password rounds (Pbkdf2.chain (hmacSha256 sha) password text k) t =
      ((List.range' (k + 1) rounds).map (Pbkdf2.chain (hmacSha256 sha) password text)).foldl xorOctets t := by
  induction rounds generalizing k t with
  | zero => rfl
  | succ rounds ih =>
      rw [List.range'_succ, List.map_cons, List.foldl_cons, ← ih]
      rfl

theorem pbkdf2Rounds_eq_block (hiterations : 1 ≤ iterations) (i : Nat) :
    let u := hmacSha256 sha password (salt ++ blockBytes i)
    pbkdf2Rounds sha password (iterations - 1) u u =
      Pbkdf2.block (hmacSha256 sha) password salt iterations i := by
  obtain ⟨rounds, rfl⟩ := Nat.exists_eq_add_of_le' hiterations
  have hrounds := pbkdf2Rounds_eq sha password (salt ++ Pbkdf2.int i) rounds 0
  rw [Pbkdf2.block, List.range_eq_range', List.range'_succ, List.map_cons, Pbkdf2.exclusiveOr, blockBytes_eq]
  exact hrounds _

/-- The loop goes on from the key of the blocks before to that of as many blocks as there is fuel for. -/
theorem pbkdf2Blocks_eq (hiterations : 1 ≤ iterations) (keyLength fuel n : Nat) :
    pbkdf2Blocks sha password salt iterations keyLength fuel (n + 1)
        ((Pbkdf2.blocks (hmacSha256 sha) password salt iterations n).take keyLength) =
      (Pbkdf2.blocks (hmacSha256 sha) password salt iterations (n + fuel)).take keyLength := by
  have hprf : ∀ key text, (hmacSha256 sha key text).length = 32 := length_hmacSha256 sha
  induction fuel generalizing n with
  | zero => rfl
  | succ fuel ih =>
      have hlength : ((Pbkdf2.blocks (hmacSha256 sha) password salt iterations n).take keyLength).length =
          min keyLength (n * 32) := by
        rw [List.length_take, Pbkdf2.length_blocks hprf hiterations]
      rw [pbkdf2Blocks, hlength]
      split
      case isTrue hmore =>
        have hbefore : n * 32 ≤ keyLength := by omega
        have hderived : (Pbkdf2.blocks (hmacSha256 sha) password salt iterations n).take keyLength =
            Pbkdf2.blocks (hmacSha256 sha) password salt iterations n :=
          List.take_of_length_le (by rwa [Pbkdf2.length_blocks hprf hiterations])
        have hblock := pbkdf2Rounds_eq_block sha password salt hiterations (n + 1)
        have hcount : n + (fuel + 1) = n + 1 + fuel := by omega
        dsimp only at hblock ⊢
        rw [hderived, Nat.min_eq_right hbefore, hblock, ← Pbkdf2.take_blocks_succ hprf hiterations hbefore,
          ih (n + 1), hcount]
      case isFalse hdone =>
        exact (Pbkdf2.take_blocks hprf hiterations (Nat.le_add_right n _) (by omega)).symm

theorem pbkdf2Derive_eq_take (hiterations : 1 ≤ iterations) (keyLength : Nat) :
    pbkdf2Derive sha password salt iterations keyLength =
      (Pbkdf2.blocks (hmacSha256 sha) password salt iterations keyLength).take keyLength := by
  have hblocks := pbkdf2Blocks_eq sha password salt hiterations keyLength keyLength 0
  have hempty : (Pbkdf2.blocks (hmacSha256 sha) password salt iterations 0).take keyLength = [] :=
    List.take_nil
  rw [hempty, Nat.zero_add keyLength] at hblocks
  exact hblocks

theorem length_pbkdf2Derive (hiterations : 1 ≤ iterations) (keyLength : Nat) :
    (pbkdf2Derive sha password salt iterations keyLength).length = keyLength := by
  rw [pbkdf2Derive_eq_take sha password salt hiterations, List.length_take,
    Pbkdf2.length_blocks (length_hmacSha256 sha) hiterations]
  exact Nat.min_eq_left (Nat.le_mul_of_pos_right keyLength (by decide))

/-- A hash of the right length: the sum of the octets, from each place on. -/
def sumSha : Sha256 where
  hash data := (List.range 32).map fun place => data.foldl (· + ·) (UInt8.ofNat place)
  length_hash _ := by rw [List.length_map, List.length_range]

/-- Keys are derived as the standards say, whatever SHA-256 computes. -/
theorem key_derivation_standard (key data : Bytes) (hiterations : 1 ≤ iterations) {keyLength : Nat}
    (hkeyLength : keyLength ≤ 2 ^ 31 - 1) :
    hmacSha256 sha key data = Hmac.hmac sha.hash 64 key data ∧
      Pbkdf2.pbkdf2 (Hmac.hmac sha.hash 64) 32 password salt iterations keyLength =
        some (pbkdf2Derive sha password salt iterations keyLength) := by
  have hprf : Hmac.hmac sha.hash 64 = hmacSha256 sha := by
    funext key data
    exact (hmacSha256_eq sha key data).symm
  refine ⟨hmacSha256_eq sha key data, ?_⟩
  rw [hprf, pbkdf2Derive_eq_take sha password salt hiterations]
  exact Pbkdf2.pbkdf2_eq_take (length_hmacSha256 sha) (by decide) hiterations (by omega)
    (Nat.le_mul_of_pos_right keyLength (by decide))

theorem key_derivation_standard_partialBlock :
    hmacSha256 sumSha [1] [2] = Hmac.hmac sumSha.hash 64 [1] [2] ∧
      Pbkdf2.pbkdf2 (Hmac.hmac sumSha.hash 64) 32 [3] [4] 2 40 =
        some (pbkdf2Derive sumSha [3] [4] 2 40) :=
  key_derivation_standard sumSha [3] [4] [1] [2] (by decide) (by decide)

end SoulCoreKit.Auth
