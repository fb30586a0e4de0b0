import Mathlib.Algebra.Order.Round
import PoseRig.Proofs.Number.Exact

/-!
# Multiples of scalars rounded to integers

A finite scalar has an exact value. Its product with a factor of at most twenty-nine
binary digits is exact in double precision, so rounding that product half away from zero
rounds the exact multiple.
-/

set_option autoImplicit false

namespace PoseRig

/-- The nearest integer; of two that are equally near, the one farther from zero. -/
def roundAway (q : ℚ) : ℤ := if q < 0 then -⌊-q + 1 / 2⌋ else ⌊q + 1 / 2⌋

theorem roundAway_of_nonneg {q : ℚ} (h : 0 ≤ q) : roundAway q = ⌊q + 1 / 2⌋ :=
  if_neg (not_lt.mpr h)

theorem roundAway_zero : roundAway 0 = 0 := by
  rw [roundAway_of_nonneg le_rfl]
  norm_num

theorem roundAway_neg (q : ℚ) : roundAway (-q) = -roundAway q := by
  rcases lt_trichotomy q 0 with h | rfl | h
  · rw [roundAway_of_nonneg (by linarith), roundAway, if_pos h, neg_neg]
  · rw [neg_zero, roundAway_zero, neg_zero]
  · rw [roundAway_of_nonneg h.le, roundAway, if_pos (by linarith), neg_neg]

theorem abs_sub_roundAway_le (q : ℚ) : |q - roundAway q| ≤ 1 / 2 := by
  rw [abs_le]
  rcases lt_or_ge q 0 with h | h
  · have hlow := Int.floor_le (-q + 1 / 2)
    have hhigh := Int.lt_floor_add_one (-q + 1 / 2)
    rw [roundAway, if_pos h, Int.cast_neg]
    exact ⟨by linarith, by linarith⟩
  · have hlow := Int.floor_le (q + 1 / 2)
    have hhigh := Int.lt_floor_add_one (q + 1 / 2)
    rw [roundAway_of_nonneg h]
    exact ⟨by linarith, by linarith⟩

namespace Binary

theorem roundHalfUp_eq {num den : Nat} (hd : 0 < den) :
    (roundHalfUp num den : ℤ) = ⌊(num : ℚ) / den + 1 / 2⌋ := by
  have hdq : (den : ℚ) ≠ 0 := by exact_mod_cast hd.ne'
  have hsum : (num : ℚ) / den + 1 / 2 = ((2 * num + den : ℤ) : ℚ) / ((2 * den : ℕ) : ℚ) := by
    push_cast
    field_simp
  rw [hsum, Rat.floor_intCast_div_natCast, roundHalfUp]
  push_cast
  rfl

end Binary

namespace Scalar

open Binary

variable {x : Scalar} {bits factor m : Nat} {e : Int}

/-- The exact value of a finite scalar, and zero for the others. -/
def toRat (x : Scalar) : ℚ :=
  match classify x with
  | .finite negative m e => if negative then -(m * 2 ^ e) else m * 2 ^ e
  | _ => 0

theorem classify_of_finite (h : isFinite x = true) :
    classify x =
      .finite (isNegative x) (single.decode (magnitude x)).1 (single.decode (magnitude x)).2 :=
  if_pos (of_decide_eq_true h)

theorem toRat_of_finite (h : isFinite x = true) :
    toRat x =
      if isNegative x then
        -((single.decode (magnitude x)).1 * 2 ^ (single.decode (magnitude x)).2 : ℚ)
      else (single.decode (magnitude x)).1 * 2 ^ (single.decode (magnitude x)).2 := by
  rw [toRat, classify_of_finite h]

theorem toRat_eq (h : isFinite x = true) (hsign : isNegative x = false)
    (hdecode : single.decode (magnitude x) = (m, e)) : toRat x = m * 2 ^ e := by
  rw [toRat_of_finite h, hsign, hdecode, if_neg Bool.false_ne_true]

theorem toRat_zero : toRat 0 = 0 := by
  rw [toRat_eq (m := 0) (e := -149) (by decide) (by decide) (by decide), Nat.cast_zero, zero_mul]

theorem roundedMultiple_eq (factor m : Nat) (e : Int) :
    (roundedMultiple factor m e : ℤ) = ⌊(m * 2 ^ e * factor : ℚ) + 1 / 2⌋ := by
  have hvalue := scaled_div (m * factor) 1 (-e)
  rw [Nat.cast_one, div_one, zpow_neg, div_inv_eq_mul, Nat.cast_mul] at hvalue
  rw [mul_right_comm, ← hvalue]
  exact roundHalfUp_eq (scaled_snd_pos _ Nat.one_pos _)

theorem signed_floor {q : ℚ} (h : 0 ≤ q) (negative : Bool) {n : Nat} (hn : (n : ℤ) = ⌊q + 1 / 2⌋) :
    signed negative n = roundAway (if negative then -q else q) := by
  rw [← roundAway_of_nonneg h] at hn
  cases negative with
  | false => exact hn
  | true =>
    rw [if_pos rfl, roundAway_neg, ← hn]
    rfl

theorem roundTimes?_of_finite (h : isFinite x = true) (factor : Nat) :
    roundTimes? factor x = some (roundAway (toRat x * factor)) := by
  rw [roundTimes?, classify_of_finite h, toRat_of_finite h]
  dsimp only
  rw [signed_floor (by positivity) _ (roundedMultiple_eq _ _ _), ite_mul, neg_mul]

theorem toRat_doubleMultiple (hfin : bits < single.infinity) (hfactor : factor ≤ 2 ^ 29) :
    ((doubleMultiple factor (single.decode bits).1 (single.decode bits).2).1 : ℚ) *
        2 ^ (doubleMultiple factor (single.decode bits).1 (single.decode bits).2).2 =
      (single.decode bits).1 * 2 ^ (single.decode bits).2 * factor := by
  obtain ⟨wide, hlt, hunits⟩ := Format.exists_double hfin hfactor
  have hproduct : ((single.decode bits).1 * factor : ℕ) * (2 : ℚ) ^ (single.decode bits).2 =
      double.units wide * 2 ^ double.least := by
    rw [Nat.cast_mul, mul_right_comm, single.decode_value, hunits,
      show single.least = ((925 : Nat) : Int) + double.least from rfl,
      zpow_add₀ (by norm_num), zpow_natCast, Nat.cast_mul, Nat.cast_mul, Nat.cast_pow,
        Nat.cast_ofNat, mul_right_comm, ← mul_assoc]
  have hround :
      double.ofScaled ((single.decode bits).1 * factor) (single.decode bits).2 = wide := by
    apply double.ofScaled_eq (by decide) hlt.le
    rw [hproduct, mul_div_cancel_right₀ _ (by positivity)]
    exact double.nearest_units wide
  rw [doubleMultiple, hround, double.decode_value, ← hproduct, Nat.cast_mul, mul_right_comm]

theorem roundedMultiple_doubleMultiple (hfin : bits < single.infinity) (hfactor : factor ≤ 2 ^ 29) :
    roundedMultiple 1 (doubleMultiple factor (single.decode bits).1 (single.decode bits).2).1
        (doubleMultiple factor (single.decode bits).1 (single.decode bits).2).2 =
      roundedMultiple factor (single.decode bits).1 (single.decode bits).2 := by
  apply Int.ofNat_inj.mp
  show (roundedMultiple _ _ _ : ℤ) = (roundedMultiple _ _ _ : ℤ)
  rw [roundedMultiple_eq, roundedMultiple_eq, toRat_doubleMultiple hfin hfactor,
    Nat.cast_one, mul_one]

end Scalar

end PoseRig
