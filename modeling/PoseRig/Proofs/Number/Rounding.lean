import PoseRig.Number.Binary
import Mathlib.Algebra.Order.Field.Power
import Mathlib.Algebra.Order.Field.Rat
import Mathlib.Tactic.FieldSimp
import Mathlib.Tactic.Linarith
import Mathlib.Tactic.Positivity
import Mathlib.Tactic.Ring

/-!
# Rounding to a format

Values are counted in units of the least positive value of the format, so the values of consecutive
bit patterns ascend. A number is nearest to a pattern when it lies between the midpoints to the two
neighbouring patterns; rounding gives the one pattern that the number is nearest to.
-/

set_option autoImplicit false

namespace PoseRig.Binary

theorem scaled_snd_pos (num : Nat) {den : Nat} (hd : 0 < den) (e : Int) :
    0 < (scaled num den e).2 := by
  unfold scaled
  split
  · rw [Nat.shiftLeft_eq]
    positivity
  · exact hd

theorem scaled_div (num den : Nat) (e : Int) :
    ((scaled num den e).1 : ℚ) / (scaled num den e).2 = num / den / 2 ^ e := by
  unfold scaled
  by_cases he : 0 ≤ e
  · obtain ⟨k, rfl⟩ := Int.eq_ofNat_of_zero_le he
    rw [if_pos he, Nat.shiftLeft_eq, Int.toNat_natCast, zpow_natCast, div_div]
    push_cast
    rfl
  · obtain ⟨k, rfl⟩ : ∃ k : Nat, e = -(k : Int) := ⟨(-e).toNat, by omega⟩
    rw [if_neg he, Nat.shiftLeft_eq, neg_neg, Int.toNat_natCast, zpow_neg, zpow_natCast,
      div_inv_eq_mul]
    push_cast
    ring

theorem scaled_snd_le_fst {num den : Nat} (hd : 0 < den) (e : Int) :
    (scaled num den e).2 ≤ (scaled num den e).1 ↔ (2 : ℚ) ^ e ≤ num / den := by
  have hr : (0 : ℚ) < (scaled num den e).2 := by exact_mod_cast scaled_snd_pos num hd e
  have he : (0 : ℚ) < 2 ^ e := by positivity
  rw [← one_le_div he, ← scaled_div, one_le_div hr, Nat.cast_le]

theorem floorLog2_spec {num den : Nat} (hn : 0 < num) (hd : 0 < den) :
    (2 : ℚ) ^ floorLog2 num den ≤ num / den ∧
      (num : ℚ) / den < 2 ^ (floorLog2 num den + 1) := by
  have hdq : (0 : ℚ) < den := by exact_mod_cast hd
  have hn₁ : (2 : ℚ) ^ (Nat.log2 num : Int) ≤ num := by
    rw [zpow_natCast]
    exact_mod_cast Nat.log2_self_le (by omega)
  have hn₂ : (num : ℚ) < 2 ^ ((Nat.log2 num : Int) + 1) := by
    rw [← Nat.cast_succ, zpow_natCast]
    exact_mod_cast Nat.lt_log2_self
  have hd₁ : (2 : ℚ) ^ (Nat.log2 den : Int) ≤ den := by
    rw [zpow_natCast]
    exact_mod_cast Nat.log2_self_le (by omega)
  have hd₂ : (den : ℚ) < 2 ^ ((Nat.log2 den : Int) + 1) := by
    rw [← Nat.cast_succ, zpow_natCast]
    exact_mod_cast Nat.lt_log2_self
  have hbelow : (2 : ℚ) ^ ((Nat.log2 num : Int) - Nat.log2 den - 1) ≤ num / den := by
    rw [le_div_iff₀ hdq]
    calc (2 : ℚ) ^ ((Nat.log2 num : Int) - Nat.log2 den - 1) * den
        ≤ 2 ^ ((Nat.log2 num : Int) - Nat.log2 den - 1) * 2 ^ ((Nat.log2 den : Int) + 1) := by
          gcongr
      _ = 2 ^ (Nat.log2 num : Int) := by
        rw [← zpow_add₀ (by norm_num)]
        congr 1
        ring
      _ ≤ num := hn₁
  have habove : (num : ℚ) / den < 2 ^ ((Nat.log2 num : Int) - Nat.log2 den + 1) := by
    rw [div_lt_iff₀ hdq]
    calc (num : ℚ) < 2 ^ ((Nat.log2 num : Int) + 1) := hn₂
      _ = 2 ^ ((Nat.log2 num : Int) - Nat.log2 den + 1) * 2 ^ (Nat.log2 den : Int) := by
        rw [← zpow_add₀ (by norm_num)]
        congr 1
        ring
      _ ≤ 2 ^ ((Nat.log2 num : Int) - Nat.log2 den + 1) * den := by gcongr
  unfold floorLog2
  dsimp only
  by_cases hle : (2 : ℚ) ^ ((Nat.log2 num : Int) - Nat.log2 den) ≤ num / den
  · rw [if_pos ((scaled_snd_le_fst hd _).mpr hle)]
    exact ⟨hle, habove⟩
  · rw [if_neg fun h => hle ((scaled_snd_le_fst hd _).mp h), sub_add_cancel]
    exact ⟨hbelow, lt_of_not_ge hle⟩

theorem roundHalfEven_spec {n d : Nat} (hd : 0 < d) :
    2 * roundHalfEven n d * d ≤ 2 * n + d ∧ 2 * n ≤ 2 * roundHalfEven n d * d + d ∧
      (roundHalfEven n d % 2 = 1 →
        2 * roundHalfEven n d * d < 2 * n + d ∧ 2 * n < 2 * roundHalfEven n d * d + d) := by
  have hn : n = d * (n / d) + n % d := (Nat.div_add_mod n d).symm
  have hr : n % d < d := Nat.mod_lt n hd
  unfold roundHalfEven
  dsimp only
  generalize n / d = q at hn ⊢
  generalize n % d = r at hn hr ⊢
  subst hn
  have hq : 2 * q * d = 2 * (d * q) := by ring
  have hq' : 2 * (q + 1) * d = 2 * (d * q) + 2 * d := by ring
  split
  · rw [hq]
    omega
  · rw [hq']
    omega

theorem roundHalfEven_div {n d : Nat} (hd : 0 < d) :
    2 * roundHalfEven n d - 1 ≤ 2 * ((n : ℚ) / d) ∧ 2 * ((n : ℚ) / d) ≤ 2 * roundHalfEven n d + 1 ∧
      (roundHalfEven n d % 2 = 1 →
        (2 * roundHalfEven n d - 1 : ℚ) < 2 * ((n : ℚ) / d) ∧
          2 * ((n : ℚ) / d) < 2 * roundHalfEven n d + 1) := by
  have hdq : (0 : ℚ) < d := by exact_mod_cast hd
  obtain ⟨hlow, hhigh, hodd⟩ := roundHalfEven_spec (n := n) hd
  have hn : (n : ℚ) = n / d * d := by field_simp
  have hlow' : (2 * roundHalfEven n d * d : ℚ) ≤ 2 * n + d := by exact_mod_cast hlow
  have hhigh' : (2 * n : ℚ) ≤ 2 * roundHalfEven n d * d + d := by exact_mod_cast hhigh
  constructor
  · nlinarith
  constructor
  · nlinarith
  · intro h
    have hlow'' : (2 * roundHalfEven n d * d : ℚ) < 2 * n + d := by exact_mod_cast (hodd h).1
    have hhigh'' : (2 * n : ℚ) < 2 * roundHalfEven n d * d + d := by exact_mod_cast (hodd h).2
    constructor
    · nlinarith
    · nlinarith

namespace Format

variable (f : Format)

theorem units_binade {j m : Nat} (hm : m ≤ 2 ^ (f.fraction + 1)) (hj : j ≠ 0 → 2 ^ f.fraction ≤ m) :
    f.units (j * 2 ^ f.fraction + m) = m * 2 ^ j := by
  have hpos : 0 < 2 ^ f.fraction := by positivity
  have hdouble : 2 ^ (f.fraction + 1) = 2 ^ f.fraction + 2 ^ f.fraction := by ring
  have hfield : (j * 2 ^ f.fraction + m) >>> f.fraction = j + m / 2 ^ f.fraction := by
    rw [Nat.shiftRight_eq_div_pow, Nat.add_comm, Nat.add_mul_div_right _ _ hpos, Nat.add_comm]
  have hlow : (j * 2 ^ f.fraction + m) % Nat.pow 2 f.fraction = m % 2 ^ f.fraction := by
    show (j * 2 ^ f.fraction + m) % 2 ^ f.fraction = _
    rw [Nat.add_comm, Nat.add_mul_mod_self_right]
  unfold units decode
  rw [hfield, hlow]
  rcases lt_or_ge m (2 ^ f.fraction) with hlt | hge
  · have hj0 : j = 0 := by
      by_contra h
      exact absurd (hj h) (by omega)
    rw [Nat.div_eq_of_lt hlt, Nat.mod_eq_of_lt hlt, hj0, if_pos rfl]
    simp
  · rcases Nat.lt_or_eq_of_le hm with hlt | heq
    · obtain ⟨l, rfl⟩ := Nat.exists_eq_add_of_le hge
      have hl : l < 2 ^ f.fraction := by omega
      rw [Nat.add_div_left _ hpos, Nat.div_eq_of_lt hl, Nat.add_mod_left, Nat.mod_eq_of_lt hl,
        if_neg (by omega)]
      have hshift : (((j + (0 + 1) : Nat) : Int) - 1 + f.least - f.least).toNat = j := by omega
      show (l + 2 ^ f.fraction) <<< _ = _
      rw [hshift, Nat.shiftLeft_eq, Nat.add_comm l]
    · have hm2 : m = 2 ^ f.fraction * 2 := by rw [heq, pow_succ]
      rw [hm2, Nat.mul_div_cancel_left _ hpos, Nat.mul_mod_right, if_neg (by omega)]
      have hshift : (((j + 2 : Nat) : Int) - 1 + f.least - f.least).toNat = j + 1 := by omega
      show (0 + 2 ^ f.fraction) <<< _ = _
      rw [hshift, Nat.shiftLeft_eq, pow_succ]
      ring

theorem exists_binade (bits : Nat) :
    ∃ j m, bits = j * 2 ^ f.fraction + m ∧ m < 2 ^ (f.fraction + 1) ∧
      (j ≠ 0 → 2 ^ f.fraction ≤ m) := by
  have hsplit := Nat.div_add_mod bits (2 ^ f.fraction)
  have hlow := Nat.mod_lt bits (show 0 < 2 ^ f.fraction by positivity)
  have hdouble : 2 ^ (f.fraction + 1) = 2 ^ f.fraction + 2 ^ f.fraction := by ring
  rcases Nat.eq_zero_or_pos (bits / 2 ^ f.fraction) with h0 | hpos
  · exact ⟨0, bits, by simp, by rw [h0] at hsplit; omega, fun h => absurd rfl h⟩
  · obtain ⟨j, hj⟩ := Nat.exists_eq_succ_of_ne_zero hpos.ne'
    refine ⟨j, 2 ^ f.fraction + bits % 2 ^ f.fraction, ?_, by omega, fun _ => Nat.le_add_right _ _⟩
    rw [hj, Nat.mul_succ, Nat.mul_comm] at hsplit
    omega

theorem units_succ {j m : Nat} (hm : m < 2 ^ (f.fraction + 1)) (hj : j ≠ 0 → 2 ^ f.fraction ≤ m) :
    f.units (j * 2 ^ f.fraction + m + 1) = (m + 1) * 2 ^ j :=
  f.units_binade (m := m + 1) (by omega) fun h => (hj h).trans (Nat.le_succ m)

theorem units_zero : f.units 0 = 0 := by
  have h := f.units_binade (j := 0) (m := 0) (Nat.zero_le _) (fun h => absurd rfl h)
  simpa using h

theorem units_strictMono : StrictMono f.units := by
  apply strictMono_nat_of_lt_succ
  intro bits
  obtain ⟨j, m, rfl, hm, hj⟩ := f.exists_binade bits
  rw [f.units_succ hm hj, f.units_binade hm.le hj]
  exact Nat.mul_lt_mul_of_pos_right (Nat.lt_succ_self m) (by positivity)

theorem exists_binade_above (bits : Nat) :
    ∃ j m, bits = j * 2 ^ f.fraction + m ∧ m ≤ 2 ^ (f.fraction + 1) ∧
      (j ≠ 0 → 2 ^ f.fraction < m) := by
  obtain ⟨j, m, rfl, hm, hj⟩ := f.exists_binade bits
  by_cases hfirst : j ≠ 0 ∧ m = 2 ^ f.fraction
  · obtain ⟨hj0, rfl⟩ := hfirst
    obtain ⟨i, rfl⟩ := Nat.exists_eq_succ_of_ne_zero hj0
    have hpos : 0 < 2 ^ f.fraction := by positivity
    have hdouble : 2 ^ (f.fraction + 1) = 2 ^ f.fraction + 2 ^ f.fraction := by ring
    exact ⟨i, 2 ^ (f.fraction + 1), by rw [Nat.succ_mul]; omega, le_rfl, fun _ => by omega⟩
  · exact ⟨j, m, rfl, hm.le, fun h => lt_of_le_of_ne (hj h) fun he => hfirst ⟨h, he.symm⟩⟩

theorem units_pred {j m : Nat} (hm : m < 2 ^ (f.fraction + 1)) (hj : j ≠ 0 → 2 ^ f.fraction ≤ m) :
    f.units (j * 2 ^ f.fraction + (m + 1) - 1) = m * 2 ^ j :=
  f.units_binade hm.le hj

theorem units_le_step {bits : Nat} (hb : 0 < bits) :
    f.units bits + 2 ^ (f.fraction + 1) * f.units (bits - 1) ≤
      2 ^ (f.fraction + 1) * f.units bits := by
  obtain ⟨j, m, rfl, hm, hj⟩ := f.exists_binade_above bits
  cases m with
  | zero =>
    have hj0 : j = 0 := by
      by_contra h
      exact absurd (hj h) (Nat.not_lt_zero _)
    simp [hj0] at hb
  | succ l =>
    rw [f.units_binade hm fun h => (hj h).le, f.units_pred hm fun h => Nat.le_of_lt_succ (hj h)]
    have hle : (l + 1) * 2 ^ j ≤ 2 ^ (f.fraction + 1) * 2 ^ j := Nat.mul_le_mul_right _ hm
    linarith

/-- The number of units `x` lies between the midpoints to the neighbouring patterns, and only an
even pattern takes the midpoints themselves. -/
structure Nearest (f : Format) (bits : Nat) (x : ℚ) : Prop where
  low : (f.units (bits - 1) : ℚ) + f.units bits ≤ 2 * x
  high : 2 * x ≤ f.units bits + f.units (bits + 1)
  odd : bits % 2 = 1 →
    (f.units (bits - 1) : ℚ) + f.units bits < 2 * x ∧ 2 * x < f.units bits + f.units (bits + 1)

theorem Nearest.not_lt {b c : Nat} {x : ℚ} (hb : f.Nearest b x) (hc : f.Nearest c x) : ¬ b < c := by
  intro hlt
  have hmono := f.units_strictMono
  rcases Nat.lt_or_eq_of_le (Nat.le_sub_one_of_lt hlt) with hgap | rfl
  · have h₁ : (f.units b : ℚ) < f.units (c - 1) := by exact_mod_cast hmono hgap
    have h₂ : (f.units (b + 1) : ℚ) < f.units c := by exact_mod_cast hmono (by omega)
    linarith [hb.high, hc.low]
  · have hnext : c - 1 + 1 = c := by omega
    have hhigh := hb.high
    have hodd := hb.odd
    rw [hnext] at hhigh hodd
    rcases Nat.mod_two_eq_zero_or_one c with heven | hcodd
    · exact absurd hc.low (not_le.mpr (hodd (by omega)).2)
    · exact absurd hhigh (not_le.mpr (hc.odd hcodd).1)

theorem Nearest.unique {b c : Nat} {x : ℚ} (hb : f.Nearest b x) (hc : f.Nearest c x) : b = c :=
  Nat.le_antisymm (Nat.le_of_not_lt (hc.not_lt f hb)) (Nat.le_of_not_lt (hb.not_lt f hc))

theorem units_binade_cast {j m : Nat} (hm : m ≤ 2 ^ (f.fraction + 1))
    (hj : j ≠ 0 → 2 ^ f.fraction ≤ m) : (f.units (j * 2 ^ f.fraction + m) : ℚ) = m * 2 ^ j := by
  exact_mod_cast f.units_binade hm hj

/-- The next pattern is one mantissa step away, except from the upper end of the binade, which the
number is below. -/
theorem le_midpoint_succ {j m : Nat} {y : ℚ} (hm : m ≤ 2 ^ (f.fraction + 1))
    (hj : j ≠ 0 → 2 ^ f.fraction ≤ m) (hhigh : 2 * y ≤ 2 * m + 1)
      (hodd : m % 2 = 1 → 2 * y < 2 * m + 1)
    (htop : y < 2 ^ (f.fraction + 1)) :
    2 * (y * 2 ^ j) ≤ m * 2 ^ j + f.units (j * 2 ^ f.fraction + m + 1) ∧
      (m % 2 = 1 → 2 * (y * 2 ^ j) < m * 2 ^ j + f.units (j * 2 ^ f.fraction + m + 1)) := by
  have hstep : (0 : ℚ) < 2 ^ j := by positivity
  rcases Nat.lt_or_eq_of_le hm with hlt | heq
  · have hnext : (f.units (j * 2 ^ f.fraction + m + 1) : ℚ) = (m + 1) * 2 ^ j := by
      exact_mod_cast f.units_succ hlt hj
    rw [hnext]
    constructor
    · nlinarith
    · intro h
      nlinarith [hodd h]
  · have hnext : (f.units (j * 2 ^ f.fraction + m) : ℚ) < f.units (j * 2 ^ f.fraction + m + 1) := by
      exact_mod_cast f.units_strictMono (Nat.lt_succ_self _)
    rw [f.units_binade_cast hm hj] at hnext
    have hym : y < m := by
      rw [heq]
      exact_mod_cast htop
    have hlt : 2 * (y * 2 ^ j) < m * 2 ^ j + f.units (j * 2 ^ f.fraction + m + 1) := by nlinarith
    exact ⟨hlt.le, fun _ => hlt⟩

theorem midpoint_pred_le {j m : Nat} {y : ℚ} (hm : m ≤ 2 ^ (f.fraction + 1))
    (hj : j ≠ 0 → 2 ^ f.fraction ≤ m) (hy : 0 ≤ y * 2 ^ j) (hlow : 2 * m - 1 ≤ 2 * y)
    (hodd : m % 2 = 1 → 2 * m - 1 < 2 * y) (hbottom : j ≠ 0 → (2 : ℚ) ^ f.fraction ≤ y) :
    (f.units (j * 2 ^ f.fraction + m - 1) : ℚ) + m * 2 ^ j ≤ 2 * (y * 2 ^ j) ∧
      (m % 2 = 1 → (f.units (j * 2 ^ f.fraction + m - 1) : ℚ) + m * 2 ^ j < 2 * (y * 2 ^ j)) := by
  have hstep : (0 : ℚ) < 2 ^ j := by positivity
  cases m with
  | zero =>
    have hj0 : j = 0 := by
      by_contra h
      exact absurd (hj h) (not_le.mpr (by positivity))
    subst hj0
    have hzero : (f.units (0 * 2 ^ f.fraction + 0 - 1) : ℚ) = 0 := by
      rw [Nat.zero_mul]
      exact_mod_cast f.units_zero
    rw [hzero]
    exact ⟨by simpa using hy, fun h => absurd h (by decide)⟩
  | succ l =>
    by_cases hfirst : j ≠ 0 ∧ l + 1 = 2 ^ f.fraction
    · have hprev : (f.units (j * 2 ^ f.fraction + (l + 1) - 1) : ℚ) <
          f.units (j * 2 ^ f.fraction + (l + 1)) := by
        exact_mod_cast f.units_strictMono (Nat.sub_lt (by omega) Nat.one_pos)
      rw [f.units_binade_cast hm hj] at hprev
      have hym : ((l + 1 : Nat) : ℚ) ≤ y := by
        rw [hfirst.2]
        exact_mod_cast hbottom hfirst.1
      have hlt : (f.units (j * 2 ^ f.fraction + (l + 1) - 1) : ℚ) + (l + 1 : Nat) * 2 ^ j <
          2 * (y * 2 ^ j) := by nlinarith
      exact ⟨hlt.le, fun _ => hlt⟩
    · have hprev : (f.units (j * 2 ^ f.fraction + (l + 1) - 1) : ℚ) = l * 2 ^ j := by
        exact_mod_cast f.units_pred hm fun h =>
          Nat.le_of_lt_succ (lt_of_le_of_ne (hj h) fun he => hfirst ⟨h, he.symm⟩)
      rw [hprev]
      push_cast at hlow hodd ⊢
      constructor
      · nlinarith
      · intro h
        nlinarith [hodd h]

theorem nearest_of_mantissa (hf : 0 < f.fraction) {j m : Nat} {x : ℚ} (hx : 0 ≤ x)
    (hlow : 2 * m - 1 ≤ 2 * (x / 2 ^ j)) (hhigh : 2 * (x / 2 ^ j) ≤ 2 * m + 1)
    (hodd : m % 2 = 1 → (2 * m - 1 : ℚ) < 2 * (x / 2 ^ j) ∧ 2 * (x / 2 ^ j) < 2 * m + 1)
    (htop : x / 2 ^ j < 2 ^ (f.fraction + 1)) (hbottom : j ≠ 0 → (2 : ℚ) ^ f.fraction ≤ x / 2 ^ j) :
    f.Nearest (j * 2 ^ f.fraction + m) x := by
  obtain ⟨y, rfl⟩ : ∃ y, x = y * 2 ^ j := ⟨x / 2 ^ j, by field_simp⟩
  rw [mul_div_cancel_right₀ y (by positivity)] at *
  have hm : m ≤ 2 ^ (f.fraction + 1) := by
    have h : (m : ℚ) < (2 ^ (f.fraction + 1) : Nat) + 1 := by
      push_cast
      linarith
    exact Nat.le_of_lt_succ (by exact_mod_cast h)
  have hj : j ≠ 0 → 2 ^ f.fraction ≤ m := by
    intro h
    have hlt : ((2 ^ f.fraction : Nat) : ℚ) < m + 1 := by
      push_cast
      linarith [hbottom h]
    exact Nat.le_of_lt_succ (by exact_mod_cast hlt)
  have hparity : (j * 2 ^ f.fraction + m) % 2 = m % 2 := by
    obtain ⟨k, hk⟩ := Nat.exists_eq_succ_of_ne_zero hf.ne'
    rw [hk, pow_succ, ← mul_assoc, Nat.add_comm, Nat.add_mul_mod_self_right]
  obtain ⟨hbelow, hbelowOdd⟩ := f.midpoint_pred_le hm hj hx hlow (fun h => (hodd h).1) hbottom
  obtain ⟨habove, haboveOdd⟩ := f.le_midpoint_succ hm hj hhigh (fun h => (hodd h).2) htop
  rw [← f.units_binade_cast hm hj] at hbelow hbelowOdd habove haboveOdd
  exact ⟨hbelow, habove, fun h => ⟨hbelowOdd (hparity ▸ h), haboveOdd (hparity ▸ h)⟩⟩

/-- Rounding a ratio gives the pattern that it is nearest to, or infinity when that is beyond. -/
theorem exists_nearest_ofRatio (hf : 0 < f.fraction) (num : Nat) {den : Nat} (hd : 0 < den) :
    ∃ bits, f.Nearest bits (num / den / 2 ^ f.least) ∧ f.ofRatio num den = min bits f.infinity := by
  rcases Nat.eq_zero_or_pos num with rfl | hn
  · refine ⟨0, ⟨?_, ?_, fun h => absurd h (by decide)⟩, ?_⟩
    · simp [f.units_zero]
    · simp [f.units_zero]
    · simp [ofRatio]
  · obtain ⟨hL₁, hL₂⟩ := floorLog2_spec hn hd
    unfold ofRatio
    rw [if_neg hn.ne']
    dsimp only
    generalize floorLog2 num den = L at hL₁ hL₂ ⊢
    obtain ⟨j, hj⟩ : ∃ j : Nat, max (L - f.fraction) f.least = j + f.least :=
      ⟨(max (L - f.fraction) f.least - f.least).toNat, by omega⟩
    rw [hj]
    have hshift : ((j : Int) + f.least - f.least).toNat = j := by omega
    rw [hshift, Nat.shiftLeft_eq]
    have hdpos := scaled_snd_pos num hd (j + f.least)
    have hdiv := scaled_div num den (j + f.least)
    have htwo : (0 : ℚ) < 2 ^ (j + f.least) := by positivity
    have htop : (num : ℚ) / den / 2 ^ (j + f.least) < 2 ^ (f.fraction + 1) := by
      rw [div_lt_iff₀ htwo, ← zpow_natCast, ← zpow_add₀ (by norm_num)]
      exact hL₂.trans_le (zpow_le_zpow_right₀ (by norm_num) (by push_cast; omega))
    have hbottom : j ≠ 0 → (2 : ℚ) ^ f.fraction ≤ num / den / 2 ^ (j + f.least) := by
      intro h
      rw [le_div_iff₀ htwo, ← zpow_natCast, ← zpow_add₀ (by norm_num)]
      exact (zpow_le_zpow_right₀ (by norm_num) (by omega)).trans hL₁
    have hsplit : (num : ℚ) / den / 2 ^ (j + f.least) = num / den / 2 ^ f.least / 2 ^ j := by
      rw [zpow_add₀ (by norm_num), zpow_natCast, mul_comm, div_div _ (2 ^ f.least)]
    rw [← hdiv] at htop hbottom
    rw [hsplit] at hdiv
    obtain ⟨hlow, hhigh, hodd⟩ := roundHalfEven_div (n := (scaled num den (j + f.least)).1) hdpos
    rw [hdiv] at htop hbottom hlow hhigh hodd
    exact ⟨_, f.nearest_of_mantissa hf (by positivity) hlow hhigh hodd htop hbottom, rfl⟩

theorem ofRatio_eq (hf : 0 < f.fraction) {num den bits : Nat} (hd : 0 < den)
    (hb : bits ≤ f.infinity) (h : f.Nearest bits (num / den / 2 ^ f.least)) :
    f.ofRatio num den = bits := by
  obtain ⟨c, hc, hround⟩ := f.exists_nearest_ofRatio hf num hd
  rw [hround, hc.unique f h, min_eq_left hb]

end Format

end PoseRig.Binary
