import PoseRig.Number.Shortest
import PoseRig.Proofs.Number.Rounding

/-!
# The shortest decimal of a value

The test by which a decimal is chosen is exactly that the decimal is nearest to the pattern.
Seventeen digits are finer than the steps of single precision, so for every finite pattern a decimal
is found, and it rounds back to the pattern.
-/

set_option autoImplicit false

namespace PoseRig.Binary

theorem lt_pow_decimalLength (n : Nat) : n < 10 ^ Format.decimalLength n :=
  (Nat.length_toDigits_le_iff (by decide) Nat.length_toDigits_pos).mp le_rfl

theorem pow_decimalLength_le {n : Nat} (hn : 0 < n) : 10 ^ (Format.decimalLength n - 1) ≤ n := by
  rcases Nat.eq_zero_or_pos (Format.decimalLength n - 1) with h0 | hpos
  · rw [h0]
    exact hn
  · by_contra hlt
    have h := (Nat.length_toDigits_le_iff (n := n) (show 1 < 10 by decide) hpos).mpr (not_le.mp hlt)
    have hlen : Format.decimalLength n ≤ Format.decimalLength n - 1 := h
    omega

theorem decimalLength_pos (n : Nat) : 0 < Format.decimalLength n := Nat.length_toDigits_pos

namespace Format

variable (f : Format)

theorem overPowerOfTen_snd_pos (num : Nat) {den : Nat} (hd : 0 < den) (k : Int) :
    0 < (overPowerOfTen num den k).2 := by
  unfold overPowerOfTen
  split
  · exact Nat.mul_pos hd (Nat.pow_pos (by decide))
  · exact hd

theorem overPowerOfTen_div (num den : Nat) (k : Int) :
    ((overPowerOfTen num den k).1 : ℚ) / (overPowerOfTen num den k).2 = num / den / 10 ^ k := by
  unfold overPowerOfTen
  by_cases hk : 0 ≤ k
  · obtain ⟨n, rfl⟩ := Int.eq_ofNat_of_zero_le hk
    rw [if_pos hk, Int.toNat_natCast, zpow_natCast, div_div, Nat.pow_eq]
    push_cast
    rfl
  · obtain ⟨n, rfl⟩ : ∃ n : Nat, k = -(n : Int) := ⟨(-k).toNat, by omega⟩
    rw [if_neg hk, neg_neg, Int.toNat_natCast, zpow_neg, zpow_natCast, div_inv_eq_mul, Nat.pow_eq]
    push_cast
    ring

theorem readsBack_iff (hl : f.least ≤ 0) {bits d : Nat} {k : Int} :
    f.readsBack bits d k = true ↔ f.Nearest bits (d * 10 ^ k / 2 ^ f.least) := by
  obtain ⟨n, hn⟩ : ∃ n : Nat, f.least = -(n : Int) := ⟨(-f.least).toNat, by omega⟩
  have hpos := overPowerOfTen_snd_pos (d <<< ((-f.least).toNat + 1)) Nat.one_pos (-k)
  have hdiv := overPowerOfTen_div (d <<< ((-f.least).toNat + 1)) 1 (-k)
  unfold readsBack
  dsimp only
  generalize (overPowerOfTen (d <<< ((-f.least).toNat + 1)) 1 (-k)).1 = x at hdiv ⊢
  generalize (overPowerOfTen (d <<< ((-f.least).toNat + 1)) 1 (-k)).2 = unit at hdiv hpos ⊢
  have hunit : (0 : ℚ) < unit := by exact_mod_cast hpos
  have htwice : (x : ℚ) / unit = 2 * (d * 10 ^ k / 2 ^ f.least) := by
    rw [hdiv, hn, neg_neg, Int.toNat_natCast, Nat.shiftLeft_eq, zpow_neg, zpow_neg, zpow_natCast]
    push_cast
    rw [div_inv_eq_mul, div_inv_eq_mul, pow_succ]
    ring
  have hle : ∀ a : Nat, a * unit ≤ x ↔ (a : ℚ) ≤ 2 * (d * 10 ^ k / 2 ^ f.least) := by
    intro a
    rw [← htwice, le_div_iff₀ hunit]
    exact_mod_cast Iff.rfl
  have hge : ∀ a : Nat, x ≤ a * unit ↔ 2 * (d * 10 ^ k / 2 ^ f.least) ≤ (a : ℚ) := by
    intro a
    rw [← htwice, div_le_iff₀ hunit]
    exact_mod_cast Iff.rfl
  rcases Nat.mod_two_eq_zero_or_one bits with heven | hodd
  · rw [if_pos heven, Bool.and_eq_true, decide_eq_true_iff, decide_eq_true_iff, hle, hge]
    push_cast
    exact ⟨fun h => ⟨h.1, h.2, fun h' => by omega⟩, fun h => ⟨h.low, h.high⟩⟩
  · rw [if_neg (by omega), Bool.and_eq_true, decide_eq_true_iff, decide_eq_true_iff,
      ← not_le, ← not_le, hle, hge, not_le, not_le]
    push_cast
    exact ⟨fun h => ⟨h.1.le, h.2.le, fun _ => h⟩, fun h => h.odd hodd⟩

theorem readsBack_of_gridHit? {bits d : Nat} {k : Int} (h : f.gridHit? bits k = some d) :
    f.readsBack bits d k = true := by
  unfold gridHit? at h
  dsimp only at h
  generalize (overPowerOfTen (f.units bits) (Nat.pow 2 (-f.least).toNat) k).1 = n at h
  generalize (overPowerOfTen (f.units bits) (Nat.pow 2 (-f.least).toNat) k).2 = m at h
  cases h₁ : f.readsBack bits (n / m) k <;> cases h₂ : f.readsBack bits (n / m + 1) k <;>
    simp only [h₁, h₂, Option.some.injEq, reduceCtorEq] at h
  · rw [← h, h₂]
  · rw [← h, h₁]
  · split at h
    · rw [← h, h₁]
    · rw [← h, h₂]

theorem gridHit?_isSome {bits : Nat} {k : Int}
    (h : f.readsBack bits ((overPowerOfTen (f.units bits) (Nat.pow 2 (-f.least).toNat) k).1 /
      (overPowerOfTen (f.units bits) (Nat.pow 2 (-f.least).toNat) k).2) k = true) :
    (f.gridHit? bits k).isSome = true := by
  unfold gridHit?
  dsimp only
  rw [h]
  split <;> simp_all

theorem pow_decimalTop_le {num den : Nat} (hn : 0 < num) (hd : 0 < den) :
    (10 : ℚ) ^ (decimalTop num den - 1) ≤ num / den := by
  have hnq : (0 : ℚ) < num := by exact_mod_cast hn
  have hdq : (0 : ℚ) < den := by exact_mod_cast hd
  unfold decimalTop
  by_cases hle : den ≤ num
  · have hq : 0 < num / den := Nat.div_pos hle hd
    have hlen := decimalLength_pos (num / den)
    have hexp : (decimalLength (num / den) : Int) - 1 = (decimalLength (num / den) - 1 : Nat) := by
      omega
    rw [if_pos hle, hexp, zpow_natCast, le_div_iff₀ hdq]
    have hpow : 10 ^ (decimalLength (num / den) - 1) * den ≤ num :=
      (Nat.mul_le_mul_right den (pow_decimalLength_le hq)).trans (Nat.div_mul_le_self num den)
    exact_mod_cast hpow
  · have hlt := lt_pow_decimalLength (den / num)
    have hpow : den < 10 ^ decimalLength (den / num) * num := by
      rw [← Nat.div_lt_iff_lt_mul hn]
      exact hlt
    have hexp : 1 - (decimalLength (den / num) : Int) - 1 = -(decimalLength (den / num) : Int) := by
      ring
    rw [if_neg hle, hexp, zpow_neg, zpow_natCast, le_div_iff₀ hdq, inv_mul_le_iff₀ (by positivity)]
    exact_mod_cast hpow.le

theorem value_stripZeros (n d : Nat) (k : Int) :
    ((stripZeros n d k).1 : ℚ) * 10 ^ (stripZeros n d k).2 = d * 10 ^ k := by
  induction n generalizing d k with
  | zero => rfl
  | succ n ih =>
    rw [stripZeros]
    by_cases h : d % 10 = 0
    · have hd : (d : ℚ) = (d / 10 : Nat) * 10 := by
        exact_mod_cast (Nat.div_mul_cancel (Nat.dvd_of_mod_eq_zero h)).symm
      rw [if_pos h, ih, zpow_add_one₀ (by norm_num), hd]
      ring
    · rw [if_neg h]

theorem readsBack_floor (hl : f.least ≤ 0) {bits : Nat} (hb : 0 < bits) {k : Int} {fine : Nat}
    (hfine : 2 ^ (f.fraction + 2) ≤ fine) (hk : (10 : ℚ) ^ k / 2 ^ f.least * fine ≤ f.units bits) :
    f.readsBack bits ((overPowerOfTen (f.units bits) (Nat.pow 2 (-f.least).toNat) k).1 /
      (overPowerOfTen (f.units bits) (Nat.pow 2 (-f.least).toNat) k).2) k = true := by
  have hden : 0 < Nat.pow 2 (-f.least).toNat := Nat.pow_pos (by decide)
  have hpos := overPowerOfTen_snd_pos (f.units bits) hden k
  have hdiv := overPowerOfTen_div (f.units bits) (Nat.pow 2 (-f.least).toNat) k
  generalize (overPowerOfTen (f.units bits) (Nat.pow 2 (-f.least).toNat) k).1 = n at hdiv ⊢
  generalize (overPowerOfTen (f.units bits) (Nat.pow 2 (-f.least).toNat) k).2 = m at hdiv hpos ⊢
  have hm : (0 : ℚ) < m := by exact_mod_cast hpos
  have hgrid : (0 : ℚ) < 10 ^ k / 2 ^ f.least := by positivity
  have hunits : (f.units bits : ℚ) = n / m * (10 ^ k / 2 ^ f.least) := by
    obtain ⟨e, he⟩ : ∃ e : Nat, f.least = -(e : Int) := ⟨(-f.least).toNat, by omega⟩
    rw [hdiv, he, neg_neg, Int.toNat_natCast, Nat.pow_eq, zpow_neg, zpow_natCast]
    push_cast
    field_simp
  have hfloor : ((n / m : Nat) : ℚ) ≤ n / m := by
    rw [le_div_iff₀ hm]
    exact_mod_cast Nat.div_mul_le_self n m
  have hceil : (n : ℚ) / m < (n / m : Nat) + 1 := by
    rw [div_lt_iff₀ hm, mul_comm]
    exact_mod_cast Nat.lt_mul_div_succ n hpos
  rw [f.readsBack_iff hl, mul_div_assoc]
  generalize (10 : ℚ) ^ k / 2 ^ f.least = c at hk hgrid hunits ⊢
  -- the decimal is below the value by less than the grid, so by less than half a step
  have hbelow : ((n / m : Nat) : ℚ) * c ≤ f.units bits := by
    rw [hunits]
    gcongr
  have hnear : (f.units bits : ℚ) < (n / m : Nat) * c + c := by
    rw [hunits]
    nlinarith
  have hstep : (f.units bits : ℚ) + 2 ^ (f.fraction + 1) * f.units (bits - 1) ≤
      2 ^ (f.fraction + 1) * f.units bits := by exact_mod_cast f.units_le_step hb
  have hfine' : (2 : ℚ) ^ (f.fraction + 1) * 2 ≤ fine := by
    rw [← pow_succ]
    exact_mod_cast hfine
  have htwo : (0 : ℚ) < 2 ^ (f.fraction + 1) := by positivity
  have hhalf : 2 * c + f.units (bits - 1) ≤ f.units bits := by
    have hscaled : (2 : ℚ) ^ (f.fraction + 1) * (2 * c) ≤ f.units bits :=
      calc (2 : ℚ) ^ (f.fraction + 1) * (2 * c) = c * (2 ^ (f.fraction + 1) * 2) := by ring
        _ ≤ c * fine := by gcongr
        _ ≤ f.units bits := hk
    nlinarith
  have hnext : (f.units bits : ℚ) < f.units (bits + 1) := by
    exact_mod_cast f.units_strictMono (Nat.lt_succ_self bits)
  exact ⟨by linarith, by linarith, fun _ => ⟨by linarith, by linarith⟩⟩

theorem gridHit?_seventeen {bits : Nat} (hb : 0 < bits) :
    (single.gridHit? bits (decimalTop (single.units bits) (Nat.pow 2 149) - 17)).isSome = true := by
  have hunits : 0 < single.units bits := by
    have h := single.units_strictMono hb
    omega
  have hfine : 2 ^ (single.fraction + 2) ≤ 10 ^ 16 := by decide
  apply single.gridHit?_isSome
  apply single.readsBack_floor (by decide) hb hfine
  have hden : 0 < Nat.pow 2 149 := by decide
  have htop := pow_decimalTop_le hunits hden
  generalize decimalTop (single.units bits) (Nat.pow 2 149) = top at htop ⊢
  have hexp : top - 1 = top - 17 + (16 : Nat) := by
    push_cast
    ring
  rw [hexp, zpow_add₀ (by norm_num), zpow_natCast, le_div_iff₀ (by norm_num)] at htop
  have hleast : single.least = -((149 : Nat) : Int) := rfl
  rw [hleast, zpow_neg, zpow_natCast, div_inv_eq_mul]
  push_cast at htop ⊢
  linarith

/-- Every positive pattern of single precision is the nearest to its shortest decimal. -/
theorem nearest_shortest {bits : Nat} (hb : 0 < bits) :
    single.Nearest bits
      ((single.shortest bits).1 * 10 ^ (single.shortest bits).2 / 2 ^ single.least) := by
  unfold shortest
  dsimp only
  split
  · rename_i d k hit
    obtain ⟨i, -, hi⟩ := List.exists_of_findSome?_eq_some hit
    obtain ⟨d', hd', hpair⟩ := Option.map_eq_some_iff.mp hi
    obtain ⟨rfl, rfl⟩ := Prod.mk.inj hpair
    rw [value_stripZeros]
    exact (single.readsBack_iff (by decide)).mp (single.readsBack_of_gridHit? hd')
  · rename_i hnone
    have hmiss := Option.map_eq_none_iff.mp (List.findSome?_eq_none_iff.mp hnone 16 (by decide))
    have hhit := gridHit?_seventeen hb
    rw [show decimalTop (single.units bits) (Nat.pow 2 149) - 17 =
      decimalTop (single.units bits) (Nat.pow 2 (-single.least).toNat) -
      ((16 + 1 : Nat) : Int) from rfl, hmiss] at hhit
    cases hhit

end Format

end PoseRig.Binary
