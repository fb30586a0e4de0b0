import PoseRig.Proofs.Number.Bits
import PoseRig.Proofs.Number.Decimal

/-!
# Exact numerals

The exact value of a finite scalar is a decimal numeral. It is also the value of a double, so it
passes through double precision and comes back as the scalar.
-/

set_option autoImplicit false

namespace PoseRig

namespace Binary.Format

variable (f : Format)

theorem nearest_units (bits : Nat) : f.Nearest bits (f.units bits) := by
  have hmono := f.units_strictMono
  have hprev : (f.units (bits - 1) : ℚ) ≤ f.units bits := by
    exact_mod_cast hmono.monotone (Nat.sub_le bits 1)
  have hnext : (f.units bits : ℚ) < f.units (bits + 1) := by
    exact_mod_cast hmono (Nat.lt_succ_self bits)
  refine ⟨by linarith, by linarith, ?_⟩
  intro hodd
  have hprev' : (f.units (bits - 1) : ℚ) < f.units bits := by exact_mod_cast hmono (by omega)
  exact ⟨by linarith, by linarith⟩

theorem decode_value (bits : Nat) :
    ((f.decode bits).1 : ℚ) * 2 ^ (f.decode bits).2 = f.units bits * 2 ^ f.least := by
  have hleast : f.least ≤ (f.decode bits).2 := by
    unfold decode
    dsimp only
    split
    · exact le_rfl
    · rename_i hfield
      have hpos := Nat.pos_of_ne_zero hfield
      dsimp only
      omega
  have hunits : f.units bits = (f.decode bits).1 <<< ((f.decode bits).2 - f.least).toNat := rfl
  rw [hunits, Nat.shiftLeft_eq, Nat.cast_mul, Nat.cast_pow, Nat.cast_ofNat, mul_assoc,
    ← zpow_natCast, ← zpow_add₀ (by norm_num)]
  congr 2
  omega

theorem ofScaled_eq (hf : 0 < f.fraction) {bits m : Nat} {e : Int} (hbits : bits ≤ f.infinity)
    (h : f.Nearest bits (m * 2 ^ e / 2 ^ f.least)) : f.ofScaled m e = bits := by
  have hvalue := scaled_div m 1 (-e)
  rw [Nat.cast_one, div_one, zpow_neg, div_inv_eq_mul] at hvalue
  rw [← hvalue] at h
  exact f.ofRatio_eq hf (scaled_snd_pos m Nat.one_pos (-e)) hbits h

theorem exists_units {m j : Nat} (hm : m < 2 ^ 53) (hlow : 52 ≤ j) (hhigh : j ≤ 2045) :
    ∃ wide < double.infinity, double.units wide = m * 2 ^ j := by
  rcases Nat.eq_zero_or_pos m with rfl | hpos
  · exact ⟨0, by decide, by rw [units_zero, Nat.zero_mul]⟩
  · -- the leading digit moves to the top of the mantissa
    have hlog : m.log2 < 53 := (Nat.log2_lt hpos.ne').mpr hm
    obtain ⟨s, hs⟩ : ∃ s, s + m.log2 = 52 := ⟨52 - m.log2, by omega⟩
    have htop : 2 ^ 52 ≤ m * 2 ^ s := by
      calc 2 ^ 52 = 2 ^ m.log2 * 2 ^ s := by rw [← hs, Nat.add_comm, pow_add]
        _ ≤ m * 2 ^ s := Nat.mul_le_mul_right _ (Nat.log2_self_le hpos.ne')
    have hroom : m * 2 ^ s < 2 ^ 53 := by
      calc m * 2 ^ s < 2 ^ (m.log2 + 1) * 2 ^ s :=
        Nat.mul_lt_mul_of_pos_right Nat.lt_log2_self (by positivity)
        _ = 2 ^ 53 := by rw [← pow_add, show m.log2 + 1 + s = 53 by omega]
    refine ⟨(j - s) * 2 ^ 52 + m * 2 ^ s, ?_, ?_⟩
    · show (j - s) * 2 ^ 52 + m * 2 ^ s < 0x7FF0000000000000
      omega
    · have hwide : double.units ((j - s) * 2 ^ 52 + m * 2 ^ s) = m * 2 ^ s * 2 ^ (j - s) :=
        double.units_binade hroom.le fun _ => htop
      rw [hwide, mul_assoc, ← pow_add, show s + (j - s) = j by omega]

theorem exists_double {bits factor : Nat} (hfin : bits < single.infinity)
    (hfactor : factor ≤ 2 ^ 29) :
    ∃ wide < double.infinity, double.units wide = single.units bits * factor * 2 ^ 925 := by
  obtain ⟨j, m, rfl, hm, hj⟩ := single.exists_binade bits
  have hj254 : j < 255 := by
    have h : j * 2 ^ 23 < 255 * 2 ^ 23 := (Nat.le_add_right _ m).trans_lt hfin
    omega
  have hproduct : m * factor < 2 ^ 53 := by
    calc m * factor ≤ m * 2 ^ 29 := Nat.mul_le_mul_left m hfactor
      _ < 2 ^ 24 * 2 ^ 29 := Nat.mul_lt_mul_of_pos_right hm (by decide)
      _ = 2 ^ 53 := by rw [← pow_add]
  obtain ⟨wide, hlt, hunits⟩ := exists_units (j := j + 925) hproduct (by omega) (by omega)
  refine ⟨wide, hlt, ?_⟩
  rw [hunits, single.units_binade hm.le hj, pow_add, ← mul_assoc, Nat.mul_right_comm m]

end Binary.Format

namespace Decimal

open Binary Binary.Format

variable {d : Decimal} {bits : Nat}

theorem exists_ofDecimal (hfin : bits < single.infinity)
    (hvalue : (d.digits : ℚ) * 10 ^ d.exponent = single.units bits * 2 ^ single.least) :
    ∃ wide, double.ofDecimal d.digits d.exponent = wide ∧ wide < double.infinity ∧
      (double.units wide : ℚ) * 2 ^ double.least = single.units bits * 2 ^ single.least := by
  rcases Nat.eq_zero_or_pos bits with rfl | hb
  · have hdigits : d.digits = 0 := by
      rw [units_zero, Nat.cast_zero, zero_mul] at hvalue
      have hpow : (10 : ℚ) ^ d.exponent ≠ 0 := by positivity
      exact_mod_cast (mul_eq_zero.mp hvalue).resolve_right hpow
    refine ⟨0, ?_, by decide, by rw [units_zero, units_zero]; simp⟩
    rw [ofDecimal, hdigits]
    simp
  · obtain ⟨wide, hlt, hunits⟩ := exists_double hfin (show 1 ≤ 2 ^ 29 by decide)
    have hwide :
        (double.units wide : ℚ) * 2 ^ double.least = single.units bits * 2 ^ single.least := by
      rw [hunits, Nat.mul_one, show single.least = ((925 : Nat) : Int) + double.least from rfl,
        zpow_add₀ (by norm_num), zpow_natCast, Nat.cast_mul, Nat.cast_pow,
          Nat.cast_ofNat, mul_assoc]
    have hnarrow : single.Nearest bits (d.digits * 10 ^ d.exponent / 2 ^ single.least) := by
      rw [hvalue, mul_div_cancel_right₀ _ (by positivity)]
      exact single.nearest_units bits
    obtain ⟨hlow, hhigh⟩ := hnarrow.bounds hb hfin
    refine ⟨wide, ?_, hlt, hwide⟩
    apply double.ofDecimal_of_bounds (by decide) hlt.le hlow hhigh
    rw [hvalue, ← hwide, mul_div_cancel_right₀ _ (by positivity)]
    exact double.nearest_units wide

theorem toScalarViaDouble_of_value (hfin : bits < single.infinity)
    (hvalue : (d.digits : ℚ) * 10 ^ d.exponent = single.units bits * 2 ^ single.least) :
    d.toScalarViaDouble = .ofMagnitude d.negative bits := by
  obtain ⟨wide, hround, hlt, hwide⟩ := exists_ofDecimal hfin hvalue
  have hscaled : single.ofScaled (double.decode wide).1 (double.decode wide).2 = bits := by
    apply single.ofScaled_eq (by decide) hfin.le
    rw [double.decode_value, hwide, mul_div_cancel_right₀ _ (by positivity)]
    exact single.nearest_units bits
  unfold toScalarViaDouble
  rw [hround]
  dsimp only
  rw [if_neg hlt.ne, hscaled]

end Decimal

namespace Scalar

open Binary

def withPoint (negative : Bool) (n : Nat × Int) : Decimal :=
  if n.2 = 0 then ⟨negative, 10 * n.1, -1⟩ else ⟨negative, n.1, n.2⟩

def numeral (x : Scalar) : Decimal :=
  withPoint (isNegative x)
    (Format.stripZeros 149 (single.units (magnitude x) * 5 ^ 149) (-149))

theorem value_withPoint (negative : Bool) (n : Nat × Int) :
    ((withPoint negative n).digits : ℚ) * 10 ^ (withPoint negative n).exponent =
      n.1 * 10 ^ n.2 := by
  unfold withPoint
  split
  · rename_i h
    rw [h, zpow_neg_one, zpow_zero]
    push_cast
    ring
  · rfl

theorem negative_withPoint (negative : Bool) (n : Nat × Int) :
    (withPoint negative n).negative = negative := by
  unfold withPoint
  split <;> rfl

theorem value_numeral (x : Scalar) :
    ((numeral x).digits : ℚ) * 10 ^ (numeral x).exponent =
      single.units (magnitude x) * 2 ^ single.least := by
  have hfive : ((10 : ℚ) ^ 149)⁻¹ * 5 ^ 149 = (2 ^ 149)⁻¹ := by norm_num
  rw [numeral, value_withPoint, Format.value_stripZeros,
    show single.least = -((149 : Nat) : Int) from rfl,
    show (-149 : Int) = -((149 : Nat) : Int) from rfl, zpow_neg, zpow_neg, zpow_natCast,
    zpow_natCast, ← hfive]
  push_cast
  ring

/-- The exact numeral of a finite scalar is read as that scalar. -/
theorem toScalarViaDouble_numeral {x : Scalar} (hx : isFinite x = true) :
    (numeral x).toScalarViaDouble = x := by
  rw [Decimal.toScalarViaDouble_of_value (of_decide_eq_true hx) (value_numeral x)]
  rw [numeral, negative_withPoint, ofMagnitude_self hx]

end Scalar

end PoseRig
