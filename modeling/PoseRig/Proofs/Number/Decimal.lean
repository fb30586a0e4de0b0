import PoseRig.Number.Decimal
import PoseRig.Proofs.Number.Shortest

/-!
# Reading decimal numerals

What a numeral rounds to depends on its value alone, not on where its point stands or how many zeros
it carries.
-/

set_option autoImplicit false

namespace PoseRig

namespace Binary.Format

theorem units_single_infinity : single.units single.infinity = 2 ^ 128 * 2 ^ 149 := by
  decide +kernel

theorem Nearest.bounds {bits : Nat} {x : ℚ} (hb : 0 < bits) (hfin : bits < single.infinity)
    (h : single.Nearest bits (x / 2 ^ single.least)) :
    (10 : ℚ) ^ (-50 : Int) < x ∧ x < 10 ^ (40 : Int) := by
  have hleast : (2 : ℚ) ^ single.least = ((2 : ℚ) ^ 149)⁻¹ := by
    rw [show single.least = -((149 : Nat) : Int) from rfl, zpow_neg, zpow_natCast]
  obtain ⟨hlow, hhigh, -⟩ := h
  rw [hleast, div_inv_eq_mul] at hlow hhigh
  constructor
  · have hunits : (1 : ℚ) ≤ single.units bits := by
      exact_mod_cast Nat.succ_le_of_lt ((Nat.zero_le _).trans_lt (single.units_strictMono hb))
    have hprev : (0 : ℚ) ≤ single.units (bits - 1) := Nat.cast_nonneg _
    norm_num at hlow ⊢
    linarith
  · have h₁ : (single.units bits : ℚ) ≤ single.units single.infinity := by
      exact_mod_cast single.units_strictMono.monotone hfin.le
    have h₂ : (single.units (bits + 1) : ℚ) ≤ single.units single.infinity := by
      exact_mod_cast single.units_strictMono.monotone hfin
    rw [units_single_infinity] at h₁ h₂
    push_cast at h₁ h₂
    norm_num
    linarith

variable (f : Format)

theorem ofDecimal_of_bounds (hf : 0 < f.fraction) {bits digits : Nat} {exponent : Int}
    (hbits : bits ≤ f.infinity) (hlow : (10 : ℚ) ^ (-50 : Int) < digits * 10 ^ exponent)
    (hhigh : digits * 10 ^ exponent < (10 : ℚ) ^ (40 : Int))
    (h : f.Nearest bits (digits * 10 ^ exponent / 2 ^ f.least)) :
    f.ofDecimal digits exponent = bits := by
  have hdigits : 0 < digits := by
    rcases Nat.eq_zero_or_pos digits with rfl | hpos
    · norm_num at hlow
    · exact hpos
  -- so near to one no numeral is cut off
  have hbelow : -50 < (decimalLength digits : Int) + exponent := by
    have hlen : (digits : ℚ) < 10 ^ (decimalLength digits : Int) := by
      rw [zpow_natCast]
      exact_mod_cast lt_pow_decimalLength digits
    have hlt : (10 : ℚ) ^ (-50 : Int) < 10 ^ ((decimalLength digits : Int) + exponent) :=
      calc (10 : ℚ) ^ (-50 : Int) < digits * 10 ^ exponent := hlow
        _ < 10 ^ (decimalLength digits : Int) * 10 ^ exponent := by gcongr
        _ = 10 ^ ((decimalLength digits : Int) + exponent) := (zpow_add₀ (by norm_num) _ _).symm
    exact (zpow_lt_zpow_iff_right₀ (by norm_num)).mp hlt
  have habove : (decimalLength digits : Int) - 1 + exponent < 40 := by
    have hlen : (10 : ℚ) ^ ((decimalLength digits : Int) - 1) ≤ digits := by
      have hpos := decimalLength_pos digits
      rw [show (decimalLength digits : Int) - 1 = ((decimalLength digits - 1 : Nat) : Int) by omega,
        zpow_natCast]
      exact_mod_cast pow_decimalLength_le hdigits
    have hlt : (10 : ℚ) ^ ((decimalLength digits : Int) - 1 + exponent) < 10 ^ (40 : Int) :=
      calc (10 : ℚ) ^ ((decimalLength digits : Int) - 1 + exponent)
          = 10 ^ ((decimalLength digits : Int) - 1) * 10 ^ exponent := zpow_add₀ (by norm_num) _ _
        _ ≤ digits * 10 ^ exponent := by gcongr
        _ < 10 ^ (40 : Int) := hhigh
    exact (zpow_lt_zpow_iff_right₀ (by norm_num)).mp hlt
  unfold ofDecimal
  dsimp only
  rw [if_neg (by omega), if_neg (by omega)]
  by_cases hexp : 0 ≤ exponent
  · obtain ⟨e, rfl⟩ := Int.eq_ofNat_of_zero_le hexp
    rw [if_pos hexp]
    apply f.ofRatio_eq hf Nat.one_pos hbits
    rw [Int.toNat_natCast, Nat.pow_eq]
    push_cast
    rw [div_one]
    exact_mod_cast h
  · obtain ⟨e, rfl⟩ : ∃ e : Nat, exponent = -(e : Int) := ⟨(-exponent).toNat, by omega⟩
    rw [if_neg hexp]
    apply f.ofRatio_eq hf (Nat.pow_pos (by decide)) hbits
    rw [neg_neg, Int.toNat_natCast]
    rw [zpow_neg, zpow_natCast, ← div_eq_mul_inv] at h
    exact_mod_cast h

theorem ofDecimal_eq {bits digits : Nat} {exponent : Int} (hb : 0 < bits)
    (hfin : bits < single.infinity)
    (h : single.Nearest bits (digits * 10 ^ exponent / 2 ^ single.least)) :
    single.ofDecimal digits exponent = bits := by
  obtain ⟨hlow, hhigh⟩ := h.bounds hb hfin
  exact single.ofDecimal_of_bounds (by decide) hfin.le hlow hhigh h

end Binary.Format

end PoseRig
