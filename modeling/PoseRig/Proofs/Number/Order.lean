import Mathlib
import PoseRig.Number.Scalar

/-!
# The order of scalars

Scalars that are numbers are ordered by sign, exponent and mantissa, with the two zeros in one
place. So taking the lesser of two is associative: NaN counts as absent, and of equal ones the
leftmost is kept.
-/

set_option autoImplicit false

namespace PoseRig.Scalar

open Float.Model (UnpackedFloat)
open Float.Model.UnpackedFloat

@[simp]
def rankOf : UnpackedFloat → ℤ ×ₗ ℤ ×ₗ ℤ
  | .infinity .negative => toLex (-2, toLex (0, 0))
  | .finite .negative m e _ => toLex (-1, toLex (-e, -m))
  | .notANumber => toLex (0, toLex (0, 0))
  | .zero _ => toLex (0, toLex (0, 0))
  | .finite .positive m e _ => toLex (1, toLex (e, m))
  | .infinity .positive => toLex (2, toLex (0, 0))

def rank (x : Scalar) : ℤ ×ₗ ℤ ×ₗ ℤ := rankOf x.toModel.unpack

theorem compare_eq_lt {a b : UnpackedFloat} (ha : a.isNaN = false) (hb : b.isNaN = false) :
    a.compare b = some .lt ↔ rankOf a < rankOf b := by
  cases a with
  | notANumber => cases ha
  | infinity s =>
    cases b with
    | notANumber => cases hb
    | infinity t =>
      cases s <;> cases t <;> simp [UnpackedFloat.compare, Prod.Lex.toLex_lt_toLex, compare]
    | zero t => cases s <;> simp [UnpackedFloat.compare, Prod.Lex.toLex_lt_toLex]
    | finite t => cases s <;> cases t <;> simp [UnpackedFloat.compare, Prod.Lex.toLex_lt_toLex]
  | zero s =>
    cases b with
    | notANumber => cases hb
    | infinity t => cases t <;> simp [UnpackedFloat.compare, Prod.Lex.toLex_lt_toLex]
    | zero t => simp [UnpackedFloat.compare]
    | finite t => cases t <;> simp [UnpackedFloat.compare, Prod.Lex.toLex_lt_toLex]
  | finite s m e =>
    cases b with
    | notANumber => cases hb
    | infinity t => cases s <;> cases t <;> simp [UnpackedFloat.compare, Prod.Lex.toLex_lt_toLex]
    | zero t => cases s <;> simp [UnpackedFloat.compare, Prod.Lex.toLex_lt_toLex]
    | finite t m' e' =>
      -- numbers of one sign go by exponent and mantissa, negative ones the other way round
      cases s <;> cases t <;>
        simp [UnpackedFloat.compare, Prod.Lex.toLex_lt_toLex, Ordering.then_eq_lt,
          Ordering.then_eq_gt, compare_lt_iff_lt, compare_gt_iff_gt, eq_comm (a := e)]

theorem lt_iff_rank {x y : Scalar} (hx : x.isNaN = false) (hy : y.isNaN = false) :
    x < y ↔ x.rank < y.rank := by
  rw [rank, rank, ← compare_eq_lt hx hy]
  show decide (x.toModel.unpack.lt y.toModel.unpack = true) = true ↔ _
  rw [decide_eq_true_iff, UnpackedFloat.lt, beq_iff_eq]

theorem min_of_lt {x y : Scalar} (hx : x.isNaN = false) (hy : y.isNaN = false)
    (h : y.rank < x.rank) : min x y = y := by
  rw [min, hx, hy, if_neg Bool.false_ne_true, if_neg Bool.false_ne_true,
    if_pos ((lt_iff_rank hy hx).mpr h)]

theorem min_of_le {x y : Scalar} (hx : x.isNaN = false) (hy : y.isNaN = false)
    (h : x.rank ≤ y.rank) : min x y = x := by
  rw [min, hx, hy, if_neg Bool.false_ne_true, if_neg Bool.false_ne_true,
    if_neg (mt (lt_iff_rank hy hx).mp (not_lt.mpr h))]

theorem min_nan_left {x : Scalar} (hx : x.isNaN = true) (y : Scalar) : min x y = y := by
  rw [min, if_pos hx]

theorem min_nan_right {x y : Scalar} (hx : x.isNaN = false) (hy : y.isNaN = true) :
    min x y = x := by
  rw [min, hx, if_neg Bool.false_ne_true, if_pos hy]

theorem isNaN_min {x y : Scalar} (hx : x.isNaN = false) (hy : y.isNaN = false) :
    (min x y).isNaN = false := by
  rcases lt_or_ge y.rank x.rank with h | h
  · rwa [min_of_lt hx hy h]
  · rwa [min_of_le hx hy h]

theorem min_assoc (x y z : Scalar) : min (min x y) z = min x (min y z) := by
  cases hx : x.isNaN with
  | true => rw [min_nan_left hx, min_nan_left hx]
  | false =>
    cases hy : y.isNaN with
    | true => rw [min_nan_right hx hy, min_nan_left hy]
    | false =>
      cases hz : z.isNaN with
      | true => rw [min_nan_right (isNaN_min hx hy) hz, min_nan_right hy hz]
      | false =>
        rcases lt_or_ge y.rank x.rank with hxy | hxy
        · rw [min_of_lt hx hy hxy]
          rcases lt_or_ge z.rank y.rank with hyz | hyz
          · rw [min_of_lt hy hz hyz, min_of_lt hx hz (hyz.trans hxy)]
          · rw [min_of_le hy hz hyz, min_of_lt hx hy hxy]
        · rw [min_of_le hx hy hxy]
          rcases lt_or_ge z.rank y.rank with hyz | hyz
          · rw [min_of_lt hy hz hyz]
          · rw [min_of_le hy hz hyz, min_of_le hx hz (hxy.trans hyz), min_of_le hx hy hxy]

instance : Std.Associative min := ⟨min_assoc⟩

end PoseRig.Scalar
