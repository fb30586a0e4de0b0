import Mathlib.Algebra.Quaternion
import Mathlib.Analysis.SpecialFunctions.Complex.Arg
import PoseRig.Rotation.Euler

/-!
# Rotations in exact arithmetic

Over the real numbers the quaternions are Hamilton's, and turning a vector conjugates it. So the
product of two quaternions turns as one after the other does, and a unit quaternion keeps
lengths. The matrix of a unit quaternion turns as the quaternion itself, and splitting off a
twist loses nothing: the swing after the twist is the whole rotation, and nothing of the swing
is about the axis.
-/

set_option autoImplicit false

open scoped Quaternion

namespace PoseRig

/-- Real arithmetic with the exact square root; the angle of a vector is the argument of a
complex number. -/
noncomputable instance : Arithmetic ℝ where
  zero := 0
  one := 1
  two := 2
  cutoff := 1 / 1000000
  sqrt := Real.sqrt
  angle y x := Complex.arg ⟨x, y⟩
  less a b := decide (a < b)

namespace Triple

def dot (u v : Triple ℝ) : ℝ := u.x * v.x + u.y * v.y + u.z * v.z

noncomputable def length (v : Triple ℝ) : ℝ := √(v.dot v)

def apply (rows : Triple (Triple ℝ)) (v : Triple ℝ) : Triple ℝ :=
  ⟨rows.x.dot v, rows.y.dot v, rows.z.dot v⟩

end Triple

namespace Quaternion

variable {q t : Quaternion ℝ} {axis : Axis}

def toHamilton (q : Quaternion ℝ) : ℍ[ℝ] := ⟨q.w, q.x, q.y, q.z⟩

@[simp] theorem re_toHamilton (q : Quaternion ℝ) : q.toHamilton.re = q.w := rfl

@[simp] theorem imI_toHamilton (q : Quaternion ℝ) : q.toHamilton.imI = q.x := rfl

@[simp] theorem imJ_toHamilton (q : Quaternion ℝ) : q.toHamilton.imJ = q.y := rfl

@[simp] theorem imK_toHamilton (q : Quaternion ℝ) : q.toHamilton.imK = q.z := rfl

theorem toHamilton_injective : Function.Injective toHamilton := by
  rintro ⟨w, x, y, z⟩ ⟨w', x', y', z'⟩ h
  cases h
  rfl

theorem toHamilton_mul (a b : Quaternion ℝ) :
    (a.mul b).toHamilton = a.toHamilton * b.toHamilton := by
  ext <;> simp [mul]

theorem toHamilton_conjugate (q : Quaternion ℝ) : q.conjugate.toHamilton = star q.toHamilton := by
  ext <;> simp [conjugate]

theorem normSq_toHamilton (q : Quaternion ℝ) : q.toHamilton.normSq = q.dot q := by
  rw [Quaternion.normSq_def', re_toHamilton, imI_toHamilton, imJ_toHamilton, imK_toHamilton, dot]
  ring

def ofVector (v : Triple ℝ) : Quaternion ℝ := ⟨0, v.x, v.y, v.z⟩

theorem ofVector_injective : Function.Injective ofVector := by
  rintro ⟨x, y, z⟩ ⟨x', y', z'⟩ h
  cases h
  rfl

theorem dot_ofVector (v : Triple ℝ) : (ofVector v).dot (ofVector v) = v.dot v := by
  simp only [dot, ofVector, Triple.dot]
  ring

theorem ofVector_rotate (q : Quaternion ℝ) (v : Triple ℝ) :
    ofVector (q.rotate v) = (q.mul (ofVector v)).mul q.conjugate := by
  have hreal : ((q.mul (ofVector v)).mul q.conjugate).w = 0 := by
    simp only [mul, conjugate, ofVector]
    ring
  show (⟨0, _, _, _⟩ : Quaternion ℝ) = _
  rw [← hreal]
  rfl

theorem toHamilton_rotate (q : Quaternion ℝ) (v : Triple ℝ) :
    (ofVector (q.rotate v)).toHamilton =
      q.toHamilton * (ofVector v).toHamilton * star q.toHamilton := by
  rw [ofVector_rotate, toHamilton_mul, toHamilton_mul, toHamilton_conjugate]

theorem rotate_mul (a b : Quaternion ℝ) (v : Triple ℝ) :
    (a.mul b).rotate v = a.rotate (b.rotate v) := by
  apply ofVector_injective
  apply toHamilton_injective
  rw [toHamilton_rotate, toHamilton_rotate, toHamilton_rotate, toHamilton_mul, star_mul]
  simp only [mul_assoc]

theorem dot_rotate (h : q.dot q = 1) (v : Triple ℝ) : (q.rotate v).dot (q.rotate v) = v.dot v := by
  rw [← dot_ofVector, ← normSq_toHamilton, toHamilton_rotate, map_mul, map_mul,
    Quaternion.normSq_star, normSq_toHamilton, normSq_toHamilton, h, one_mul, mul_one, dot_ofVector]

theorem length_rotate (h : q.dot q = 1) (v : Triple ℝ) : (q.rotate v).length = v.length :=
  congrArg Real.sqrt (dot_rotate h v)

theorem normalize_of_unit (h : q.dot q = 1) : q.normalize = q := by
  have hless : Arithmetic.less (0 : ℝ) 1 = true := decide_eq_true one_pos
  have hinv : (1 : ℝ) / √1 = 1 := by rw [Real.sqrt_one, div_one]
  unfold normalize
  rw [h]
  show (if Arithmetic.less (0 : ℝ) 1 = true then
    (⟨q.w * (1 / √1), q.x * (1 / √1), q.y * (1 / √1), q.z * (1 / √1)⟩ : Quaternion ℝ)
      else identity) = q
  rw [if_pos hless, hinv, mul_one, mul_one, mul_one, mul_one]

theorem toMatrix_apply (h : q.dot q = 1) (v : Triple ℝ) : q.toMatrix.apply v = q.rotate v := by
  have hunit : q.w * q.w + q.x * q.x + q.y * q.y + q.z * q.z = 1 := h
  have hrow (a b c : ℝ) : (⟨a, b, c⟩ : Triple ℝ).dot v = a * v.x + b * v.y + c * v.z := rfl
  unfold toMatrix
  rw [normalize_of_unit h]
  simp only [Triple.apply, hrow, rotate, mul, conjugate, Arithmetic.one, Arithmetic.two,
    Arithmetic.zero, Triple.mk.injEq]
  refine ⟨?_, ?_, ?_⟩
  · linear_combination -v.x * hunit
  · linear_combination -v.y * hunit
  · linear_combination -v.z * hunit

/-- The length of what a rotation has of a twist about an axis. -/
noncomputable def twistLength (q : Quaternion ℝ) (axis : Axis) : ℝ :=
  √(q.w * q.w + q.about axis * q.about axis)

theorem dot_onAxis (w : ℝ) (axis : Axis) (a : ℝ) :
    (onAxis w axis a).dot (onAxis w axis a) = w * w + a * a := by
  cases axis <;> simp [dot, onAxis, Arithmetic.zero]

theorem twist?_of_cutoff (h : Arithmetic.cutoff ≤ q.twistLength axis) :
    q.twist? axis =
      some (onAxis (q.w / q.twistLength axis) axis (q.about axis / q.twistLength axis)) := by
  have hless : Arithmetic.less (q.twistLength axis) Arithmetic.cutoff = false :=
    decide_eq_false (not_lt.mpr h)
  show (if Arithmetic.less (q.twistLength axis) Arithmetic.cutoff = true then none else some _) = _
  rw [hless, if_neg Bool.false_ne_true]
  rfl

theorem dot_twist (h : 0 < q.twistLength axis) :
    q.w / q.twistLength axis * (q.w / q.twistLength axis) +
      q.about axis / q.twistLength axis * (q.about axis / q.twistLength axis) = 1 := by
  have hsquare :
      q.twistLength axis * q.twistLength axis = q.w * q.w + q.about axis * q.about axis :=
    Real.mul_self_sqrt (add_nonneg (mul_self_nonneg _) (mul_self_nonneg _))
  rw [div_mul_div_comm, div_mul_div_comm, ← add_div, ← hsquare]
  exact div_self (mul_pos h h).ne'

noncomputable def ofAngle (axis : Axis) (angle : ℝ) : Quaternion ℝ :=
  onAxis (Real.cos (angle / 2)) axis (Real.sin (angle / 2))

theorem dot_ofAngle (axis : Axis) (angle : ℝ) :
    (ofAngle axis angle).dot (ofAngle axis angle) = 1 := by
  rw [ofAngle, dot_onAxis]
  linarith [Real.cos_sq_add_sin_sq (angle / 2)]

theorem onAxis_eq_ofAngle {w a : ℝ} (h : w * w + a * a = 1) (axis : Axis) :
    onAxis w axis a = ofAngle axis (2 * Complex.arg ⟨w, a⟩) := by
  have hnorm : ‖(⟨w, a⟩ : ℂ)‖ = 1 := by
    rw [Complex.norm_def, Complex.normSq_mk, h, Real.sqrt_one]
  have hne : (⟨w, a⟩ : ℂ) ≠ 0 := norm_ne_zero_iff.mp (hnorm ▸ one_ne_zero)
  rw [ofAngle, mul_div_cancel_left₀ _ two_ne_zero, Complex.cos_arg hne, Complex.sin_arg,
    hnorm, div_one, div_one]

theorem swing_mul (h : t.dot t = 1) (q : Quaternion ℝ) : (q.swing t).mul t = q := by
  apply toHamilton_injective
  rw [toHamilton_mul, swing, toHamilton_mul, toHamilton_conjugate, mul_assoc,
    Quaternion.star_mul_self, normSq_toHamilton, h, Quaternion.coe_one, mul_one]

theorem about_swing (q : Quaternion ℝ) (axis : Axis) (length : ℝ) :
    (q.swing (onAxis (q.w / length) axis (q.about axis / length))).about axis = 0 := by
  cases axis <;> simp only [swing, mul, conjugate, onAxis, about, Arithmetic.zero] <;> ring

theorem swingTwist_of_twist (hq : q.dot q = 1) (ht : q.twist? axis = some t) :
    Rotation.swingTwist q axis = (q.swing t, 2 * Complex.arg ⟨t.w, t.about axis⟩) := by
  unfold Rotation.swingTwist
  rw [normalize_of_unit hq]
  dsimp only
  rw [ht]
  rfl

theorem arg_onAxis (w : ℝ) (axis : Axis) (a : ℝ) :
    Complex.arg ⟨(onAxis w axis a).w, (onAxis w axis a).about axis⟩ = Complex.arg ⟨w, a⟩ := by
  cases axis <;> rfl

theorem twist?_ofAngle (hq : q.dot q = 1) (h : Arithmetic.cutoff ≤ q.twistLength axis) :
    q.twist? axis = some (ofAngle axis (Rotation.swingTwist q axis).2) := by
  have hpos : 0 < q.twistLength axis := lt_of_lt_of_le (by norm_num [Arithmetic.cutoff]) h
  have htwist := twist?_of_cutoff h
  rw [swingTwist_of_twist hq htwist, htwist, arg_onAxis, ← onAxis_eq_ofAngle (dot_twist hpos)]

/-- In exact arithmetic the product of two quaternions turns as the second factor and then the
first. Turning by a unit quaternion keeps lengths and is what its matrix does. About each axis where
the twist is not below the cutoff, the swing after the twist it was split from is the whole
rotation, with nothing about the axis. -/
theorem rotations_agree (a b : Quaternion ℝ) (v : Triple ℝ) (ha : a.dot a = 1) :
    (a.mul b).rotate v = a.rotate (b.rotate v) ∧
      (a.rotate v).length = v.length ∧
      a.toMatrix.apply v = a.rotate v ∧
      ∀ axis : Axis, Arithmetic.cutoff ≤ a.twistLength axis →
        a.twist? axis = some (ofAngle axis (Rotation.swingTwist a axis).2) ∧
          (Rotation.swingTwist a axis).1.mul (ofAngle axis (Rotation.swingTwist a axis).2) = a ∧
          (Rotation.swingTwist a axis).1.about axis = 0 := by
  refine ⟨rotate_mul a b v, length_rotate ha v, toMatrix_apply ha v, fun axis h => ?_⟩
  have htwist := twist?_ofAngle ha h
  have hswing := congrArg Prod.fst (swingTwist_of_twist ha htwist)
  refine ⟨htwist, ?_, ?_⟩
  · rw [hswing]
    exact swing_mul (dot_ofAngle axis _) a
  · rw [congrArg Prod.fst (swingTwist_of_twist ha (twist?_of_cutoff h))]
    exact about_swing a axis _

noncomputable def cornerTurn : Quaternion ℝ := ⟨1 / 2, 1 / 2, 1 / 2, 1 / 2⟩

theorem rotations_agree_corner :
    cornerTurn.dot cornerTurn = 1 ∧ Arithmetic.cutoff ≤ cornerTurn.twistLength .y ∧
      (cornerTurn.mul cornerTurn).rotate ⟨1, 2, 3⟩ = ⟨2, 3, 1⟩ ∧
      (cornerTurn.rotate ⟨1, 2, 3⟩).length = √14 ∧
      cornerTurn.toMatrix.apply ⟨1, 2, 3⟩ = ⟨3, 1, 2⟩ ∧
      (Rotation.swingTwist cornerTurn .y).1.mul (ofAngle .y (Rotation.swingTwist cornerTurn .y).2) =
        cornerTurn ∧
      (Rotation.swingTwist cornerTurn .y).1.y = 0 := by
  have hunit : cornerTurn.dot cornerTurn = 1 := by
    norm_num [cornerTurn, dot]
  have hcutoff : Arithmetic.cutoff ≤ cornerTurn.twistLength .y := by
    apply Real.le_sqrt_of_sq_le
    norm_num [Arithmetic.cutoff, cornerTurn, about]
  have hturn (x y z : ℝ) : cornerTurn.rotate ⟨x, y, z⟩ = ⟨z, x, y⟩ := by
    simp only [cornerTurn, rotate, mul, conjugate, Arithmetic.zero, Triple.mk.injEq]
    refine ⟨?_, ?_, ?_⟩ <;> ring
  obtain ⟨hmul, hlength, hmatrix, htwist⟩ := rotations_agree cornerTurn cornerTurn ⟨1, 2, 3⟩ hunit
  obtain ⟨-, hswing, habout⟩ := htwist .y hcutoff
  refine ⟨hunit, hcutoff, ?_, ?_, ?_, hswing, habout⟩
  · rw [hmul, hturn, hturn]
  · rw [hlength]
    norm_num [Triple.length, Triple.dot]
  · rw [hmatrix, hturn]

end Quaternion

end PoseRig
