import PoseRig.Rotation.Quaternion
import PoseRig.Label

/-!
# Euler angles

Angles are radians, stored by axis whatever the order they are applied in. Reading angles off a
quaternion goes through its matrix; where the middle angle is a quarter turn the last angle is
pinned to zero and the first takes the rest.
-/

set_option autoImplicit false

namespace PoseRig

abbrev Vec := Triple Scalar

abbrev Quat := Quaternion Scalar

inductive EulerOrder where
  | xyz
  | xzy
  | yxz
  | yzx
  | zxy
  | zyx
  deriving DecidableEq, Repr, Inhabited

instance : Labelled EulerOrder where
  all := [.xyz, .xzy, .yxz, .yzx, .zxy, .zyx]
  label
    | .xyz => "XYZ"
    | .xzy => "XZY"
    | .yxz => "YXZ"
    | .yzx => "YZX"
    | .zxy => "ZXY"
    | .zyx => "ZYX"

namespace EulerOrder

def axes : EulerOrder → Axis × Axis × Axis
  | .xyz => (.x, .y, .z)
  | .xzy => (.x, .z, .y)
  | .yxz => (.y, .x, .z)
  | .yzx => (.y, .z, .x)
  | .zxy => (.z, .x, .y)
  | .zyx => (.z, .y, .x)

/-- One for the cyclic orders, minus one for the others. -/
def parity : EulerOrder → Scalar
  | .xyz => 1
  | .yzx => 1
  | .zxy => 1
  | _ => -1

end EulerOrder

inductive RotationMode where
  | quaternion
  | euler (order : EulerOrder)
  deriving DecidableEq, Repr, Inhabited

instance : Labelled RotationMode where
  all := .quaternion :: (Labelled.all : List EulerOrder).map .euler
  label
    | .quaternion => "QUATERNION"
    | .euler order => label order

def RotationMode.eulerOrder? : RotationMode → Option EulerOrder
  | .quaternion => none
  | .euler order => some order

namespace Rotation

def turn (axis : Axis) (angle : Scalar) : Quat :=
  let half := angle * 0.5
  .onAxis (Float32.cos half) axis (Float32.sin half)

def ofEuler (angles : Vec) (order : EulerOrder) : Quat :=
  let (i, j, k) := order.axes
  (turn k (angles.get k)).mul ((turn j (angles.get j)).mul (turn i (angles.get i)))

/-- The length of a planar vector, computed in double precision. -/
def hypotenuse (a b : Scalar) : Scalar :=
  (a.toFloat * a.toFloat + b.toFloat * b.toFloat).sqrt.toFloat32

def toEuler (q : Quat) (order : EulerOrder) : Vec :=
  let m := q.toMatrix
  let entry := fun r c => (m.get r).get c
  let (i, j, k) := order.axes
  let s := order.parity
  let across := hypotenuse (entry k j) (entry k k)
  let b := Float32.atan2 (-s * entry k i) across
  let (a, c) :=
    if Arithmetic.cutoff < across then
      (Float32.atan2 (s * entry k j) (entry k k), Float32.atan2 (s * entry j i) (entry i i))
    else (Float32.atan2 (-s * entry j k) (entry j j), 0)
  (((Triple.splat 0).set i a).set j b).set k c

open Arithmetic in
/-- Splits a rotation into a swing and the angle of a twist about the axis, applied first. -/
def swingTwist {K : Type} [Arithmetic K] (q : Quaternion K) (axis : Axis) : Quaternion K × K :=
  let q := q.normalize
  match q.twist? axis with
  | none => (q, zero)
  | some twist => (q.swing twist, two * angle (twist.about axis) twist.w)

end Rotation

end PoseRig
