import Mathlib.Data.Int.CardIntervalMod

/-!
# A rotation that is asked now and then

Turn `t` of a rotation over `size` places is at place `t % size`. Someone who has every `stride`-th turn
from `start` on, comes only to the places congruent to `start` modulo the greatest common divisor of the
two numbers, and to each of these in turn.
-/

namespace SoulCoreKit.Lib.Rotation

variable {size start stride place : Nat}

/-- The number of places that are come to. -/
def orbit (size stride : Nat) : Nat := size / size.gcd stride

theorem orbit_pos (hsize : 0 < size) : 0 < orbit size stride :=
  Nat.div_pos (Nat.gcd_le_left stride hsize) (Nat.gcd_pos_of_pos_left stride hsize)

/-- Between two turns at one place lies a multiple of the orbit. -/
theorem mod_eq_iff {first : Nat} (hfirst : (start + stride * first) % size = place) (hsize : 0 < size)
    (turn : Nat) : (start + stride * turn) % size = place ↔ turn ≡ first [MOD orbit size stride] := by
  rw [← hfirst]
  constructor
  · intro hsame
    have hscaled : stride * turn ≡ stride * first [MOD size] := Nat.ModEq.add_left_cancel' start hsame
    exact hscaled.cancel_left_div_gcd hsize
  · intro hmod
    obtain ⟨factor, hfactor⟩ : size ∣ stride * orbit size stride := by
      obtain ⟨quotient, hquotient⟩ := Nat.gcd_dvd_right size stride
      refine ⟨quotient, ?_⟩
      calc stride * orbit size stride
          = size.gcd stride * quotient * orbit size stride := by rw [← hquotient]
        _ = quotient * (size.gcd stride * (size / size.gcd stride)) := by rw [orbit]; ring
        _ = size * quotient := by rw [Nat.mul_div_cancel' (Nat.gcd_dvd_left size stride), mul_comm]
    have hscaled : stride * turn ≡ stride * first [MOD size] :=
      (hmod.mul_left' stride).of_dvd ⟨factor, hfactor⟩
    exact hscaled.add_left start

/-- Which places are come to. -/
theorem exists_mod_eq_iff (hsize : 0 < size) (hplace : place < size) :
    (∃ turn, (start + stride * turn) % size = place) ↔ place ≡ start [MOD size.gcd stride] := by
  constructor
  · rintro ⟨turn, rfl⟩
    have hlap : (start + stride * turn) % size ≡ start + stride * turn [MOD size.gcd stride] :=
      (Nat.mod_modEq _ size).of_dvd (Nat.gcd_dvd_left size stride)
    refine hlap.trans ?_
    have hstride : stride * turn ≡ 0 [MOD size.gcd stride] :=
      Nat.modEq_zero_iff_dvd.mpr ((Nat.gcd_dvd_right size stride).mul_right turn)
    exact hstride.add_left start
  · intro hmod
    rcases Nat.eq_zero_or_pos stride with rfl | hstride
    · refine ⟨0, ?_⟩
      rw [Nat.gcd_zero_right] at hmod
      rw [Nat.zero_mul, Nat.add_zero, ← hmod, Nat.mod_eq_of_lt hplace]
    · obtain ⟨meeting, hmeets, hcongr⟩ := Nat.chineseRemainder' hmod
      -- a common solution past the start
      have hlater : start ≤ meeting + size * stride * start :=
        (Nat.le_mul_of_pos_left start (Nat.mul_pos hsize hstride)).trans (Nat.le_add_left _ _)
      have hdvd : stride ∣ meeting + size * stride * start - start := by
        refine (Nat.modEq_iff_dvd' hlater).mp ?_
        refine hcongr.symm.trans ?_
        refine (Nat.modEq_iff_dvd' (Nat.le_add_right _ _)).mpr ?_
        rw [Nat.add_sub_cancel_left]
        exact ((Nat.dvd_mul_left stride size).mul_right start)
      obtain ⟨turn, hturn⟩ := hdvd
      refine ⟨turn, ?_⟩
      rw [← hturn, Nat.add_sub_cancel' hlater, Nat.mul_assoc, Nat.add_mul_mod_self_left, hmeets,
        Nat.mod_eq_of_lt hplace]

/-- Among so many turns, a place has its equal share, and at most one more. -/
theorem count_mod_eq (hsize : 0 < size) (hplace : place < size)
    (hmet : place ≡ start [MOD size.gcd stride]) (turns : Nat) :
    turns / orbit size stride ≤ Nat.count (fun turn => (start + stride * turn) % size = place) turns ∧
      Nat.count (fun turn => (start + stride * turn) % size = place) turns ≤
        (turns + orbit size stride - 1) / orbit size stride := by
  obtain ⟨first, hfirst⟩ := (exists_mod_eq_iff hsize hplace).mpr hmet
  have hcount : Nat.count (fun turn => (start + stride * turn) % size = place) turns =
      Nat.count (· ≡ first [MOD orbit size stride]) turns := by
    simp only [mod_eq_iff hfirst hsize]
  have horbit : 0 < orbit size stride := orbit_pos hsize
  rw [hcount, Nat.count_modEq_card turns horbit first]
  refine ⟨Nat.le_add_right _ _, ?_⟩
  rw [Nat.le_div_iff_mul_le horbit]
  have hwhole := Nat.div_add_mod turns (orbit size stride)
  rw [Nat.add_mul, Nat.mul_comm (turns / _)]
  split_ifs with hextra
  · omega
  · omega

/-- A place that is not come to has no turn. -/
theorem count_mod_eq_zero (hsize : 0 < size) (hplace : place < size)
    (hmissed : ¬ place ≡ start [MOD size.gcd stride]) (turns : Nat) :
    Nat.count (fun turn => (start + stride * turn) % size = place) turns = 0 := by
  rw [Nat.count_iff_forall_not]
  intro turn _ hturn
  exact hmissed ((exists_mod_eq_iff hsize hplace).mp ⟨turn, hturn⟩)

end SoulCoreKit.Lib.Rotation
