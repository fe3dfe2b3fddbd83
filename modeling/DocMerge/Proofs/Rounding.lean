import DocMerge.Similarity.Rounding
import Mathlib.Algebra.Order.AbsoluteValue.Basic
import Mathlib.Algebra.Order.Field.Power
import Mathlib.Algebra.Order.Field.Rat
import Mathlib.Tactic.Linarith
import Mathlib.Tactic.NormNum
import Mathlib.Tactic.Positivity
import Mathlib.Tactic.Ring

/-!
# How far rounding goes

A number of double precision is a multiple of its last bit, and so is every whole number above it
that has no more than 53 bits. So rounding does not go beyond a whole number, and it goes no further
than half of the last bit.
-/

namespace DocMerge.Similarity

theorem nearestEven_le {x : Rat} {n : Int} (h : x ≤ n) : nearestEven x ≤ n := by
  have hbelow : x.floor ≤ n := by
    have := Rat.le_trans (Rat.floor_le x) h
    exact_mod_cast this
  unfold nearestEven
  dsimp only
  split
  · exact hbelow
  · rename_i hup
    have hrest : (x.floor : Rat) ≠ x := by
      intro hwhole
      refine hup (.inl ?_)
      rw [hwhole, sub_self]
      norm_num
    have hlt : (x.floor : Rat) < n := lt_of_lt_of_le (lt_of_le_of_ne (Rat.floor_le x) hrest) h
    have : x.floor < n := by exact_mod_cast hlt
    omega

theorem nearestEven_nonneg {x : Rat} (h : 0 ≤ x) : 0 ≤ nearestEven x := by
  have hfloor : 0 ≤ x.floor := Rat.le_floor_iff.mpr (by exact_mod_cast h)
  unfold nearestEven
  dsimp only
  split <;> omega

theorem lastBit_pos (x : Rat) : 0 < lastBit x := by
  unfold lastBit
  positivity

theorem rounded_nonneg {x : Rat} (h : 0 ≤ x) : 0 ≤ rounded x := by
  unfold rounded
  split
  · exact le_refl 0
  · have hquotient : 0 ≤ x / lastBit x := div_nonneg h (lastBit_pos x).le
    exact mul_nonneg (by exact_mod_cast nearestEven_nonneg hquotient) (lastBit_pos x).le

theorem two_zpow_exponent_le {x : Rat} (hx : 0 < x) : (2 : Rat) ^ exponent x ≤ x := by
  unfold exponent
  dsimp only
  split
  · have hnum : x.num.natAbs ≠ 0 := Int.natAbs_ne_zero.mpr (Rat.num_pos.mpr hx).ne'
    have hlow : ((2 : Rat) ^ x.num.natAbs.log2) ≤ x.num.natAbs := by
      exact_mod_cast Nat.log2_self_le hnum
    have hhigh : (x.den : Rat) ≤ 2 ^ (x.den.log2 + 1) := by
      exact_mod_cast Nat.le_of_lt Nat.lt_log2_self
    have hden : (0 : Rat) < x.den := by exact_mod_cast x.den_pos
    have hwhole : ((x.num.natAbs : Nat) : Rat) = x.num := by
      rw [← Int.cast_natCast, Int.natAbs_of_nonneg (Rat.num_nonneg.mpr hx.le)]
    calc (2 : Rat) ^ ((x.num.natAbs.log2 : Int) - x.den.log2 - 1)
        = 2 ^ x.num.natAbs.log2 / 2 ^ (x.den.log2 + 1) := by
          rw [sub_sub, zpow_sub₀ two_ne_zero]
          norm_cast
      _ ≤ x.num.natAbs / x.den := div_le_div₀ (by positivity) hlow hden hhigh
      _ = x := by rw [hwhole, Rat.num_div_den]
  · rename_i habove
    exact not_lt.mp habove

/-- A number is not rounded to one above a whole number of at most 53 bits that it does not
exceed. -/
theorem rounded_le {x : Rat} {n : Nat} (hx : 0 ≤ x) (h : x ≤ n) (hn : n < 2 ^ 53) :
    rounded x ≤ n := by
  unfold rounded
  split
  · exact_mod_cast Nat.zero_le n
  · rename_i hne
    have hpos : 0 < x := lt_of_le_of_ne hx (Ne.symm hne)
    have hexponent : exponent x < 53 := by
      rw [← zpow_lt_zpow_iff_right₀ (one_lt_two (α := Rat))]
      refine lt_of_le_of_lt ((two_zpow_exponent_le hpos).trans h) ?_
      exact_mod_cast hn
    obtain ⟨k, hk⟩ := Int.eq_ofNat_of_zero_le (show 0 ≤ 52 - exponent x by omega)
    have hbit : lastBit x * 2 ^ k = 1 := by
      rw [lastBit, ← zpow_natCast, ← hk, ← zpow_add₀ two_ne_zero]
      norm_num
    have hlast := lastBit_pos x
    -- The whole number is a multiple of the last bit.
    have hmultiple : (n : Rat) = ((n * 2 ^ k : Nat) : Int) * lastBit x := by
      push_cast
      rw [mul_assoc, mul_comm (2 ^ k), hbit, mul_one]
    have hquotient : x / lastBit x ≤ ((n * 2 ^ k : Nat) : Int) := by
      rwa [div_le_iff₀ hlast, ← hmultiple]
    calc (nearestEven (x / lastBit x) : Rat) * lastBit x
        ≤ ((n * 2 ^ k : Nat) : Int) * lastBit x := by
          refine mul_le_mul_of_nonneg_right ?_ hlast.le
          exact_mod_cast nearestEven_le hquotient
      _ = n := hmultiple.symm

theorem abs_nearestEven_sub_le (x : Rat) : |(nearestEven x : Rat) - x| ≤ 1 / 2 := by
  have hlow : (x.floor : Rat) ≤ x := Rat.floor_le x
  have hhigh : x < (x.floor : Rat) + 1 := by exact_mod_cast Rat.lt_floor_add_one x
  unfold nearestEven
  extract_lets below rest
  rw [abs_le]
  split
  · rename_i hdown
    have hrest : rest ≤ 1 / 2 := hdown.elim le_of_lt fun hhalf => le_of_eq hhalf.1
    constructor <;> linarith
  · rename_i hup
    have hrest : 1 / 2 ≤ rest := not_lt.mp fun hlt => hup (.inl hlt)
    push_cast
    constructor <;> linarith

/-- Rounding changes a number by at most half of its last bit, of which it has 53. -/
theorem abs_rounded_sub_le {x : Rat} (hx : 0 ≤ x) : |rounded x - x| ≤ x / 2 ^ 53 := by
  unfold rounded
  split
  · rename_i hzero
    simp [hzero]
  · rename_i hne
    have hpos : 0 < x := lt_of_le_of_ne hx (Ne.symm hne)
    have hlast := lastBit_pos x
    have hbit : lastBit x ≤ x / 2 ^ 52 := by
      calc lastBit x = 2 ^ exponent x / 2 ^ 52 := by
            rw [lastBit, zpow_sub₀ two_ne_zero]
            norm_cast
        _ ≤ x / 2 ^ 52 := div_le_div_of_nonneg_right (two_zpow_exponent_le hpos) (by positivity)
    calc |(nearestEven (x / lastBit x) : Rat) * lastBit x - x|
        = |(nearestEven (x / lastBit x) : Rat) - x / lastBit x| * lastBit x := by
          rw [← abs_of_pos hlast, ← abs_mul, abs_of_pos hlast, sub_mul, div_mul_cancel₀ _ hlast.ne']
      _ ≤ 1 / 2 * lastBit x := mul_le_mul_of_nonneg_right (abs_nearestEven_sub_le _) hlast.le
      _ ≤ 1 / 2 * (x / 2 ^ 52) := mul_le_mul_of_nonneg_left hbit (by norm_num)
      _ = x / 2 ^ 53 := by ring

end DocMerge.Similarity
