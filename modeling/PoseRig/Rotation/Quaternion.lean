import PoseRig.Number.Scalar

/-!
# Vectors, quaternions and matrices

Everything here is algebraic, so it is stated over any type with arithmetic, a square root and an
order test: the scalars of a document, or exact numbers. Quaternions are written `w, x, y, z`.
-/

set_option autoImplicit false

namespace PoseRig

/-- The operations that rotations need. `cutoff` is the length below which a part of a rotation is
taken to vanish; `angle y x` is the angle of the planar vector `x, y`. -/
class Arithmetic (K : Type) extends Add K, Sub K, Mul K, Neg K, Div K where
  zero : K
  one : K
  two : K
  cutoff : K
  sqrt : K → K
  angle : K → K → K
  less : K → K → Bool

instance : Arithmetic Scalar where
  zero := 0
  one := 1
  two := 2
  cutoff := 1e-6
  sqrt := Float32.sqrt
  angle := Float32.atan2
  less a b := decide (a < b)

inductive Axis where
  | x
  | y
  | z
  deriving DecidableEq, Repr

namespace Axis

def index : Axis → Nat
  | .x => 0
  | .y => 1
  | .z => 2

def ofIndex? : Nat → Option Axis
  | 0 => some .x
  | 1 => some .y
  | 2 => some .z
  | _ => none

end Axis

structure Triple (K : Type) where
  x : K
  y : K
  z : K
  deriving DecidableEq, Repr

structure Quaternion (K : Type) where
  w : K
  x : K
  y : K
  z : K
  deriving DecidableEq, Repr

namespace Triple

variable {K : Type}

def splat (a : K) : Triple K := ⟨a, a, a⟩

def get (t : Triple K) : Axis → K
  | .x => t.x
  | .y => t.y
  | .z => t.z

def set (t : Triple K) (axis : Axis) (a : K) : Triple K :=
  match axis with
  | .x => { t with x := a }
  | .y => { t with y := a }
  | .z => { t with z := a }

def toList (t : Triple K) : List K := [t.x, t.y, t.z]

def map {L : Type} (f : K → L) (t : Triple K) : Triple L := ⟨f t.x, f t.y, f t.z⟩

def add [Add K] (a b : Triple K) : Triple K := ⟨a.x + b.x, a.y + b.y, a.z + b.z⟩

def scale [Mul K] (a b : Triple K) : Triple K := ⟨a.x * b.x, a.y * b.y, a.z * b.z⟩

end Triple

namespace Quaternion

variable {K : Type}

def toList (q : Quaternion K) : List K := [q.w, q.x, q.y, q.z]

def about (q : Quaternion K) : Axis → K
  | .x => q.x
  | .y => q.y
  | .z => q.z

variable [Arithmetic K]
open Arithmetic

def identity : Quaternion K := ⟨one, zero, zero, zero⟩

def onAxis (w : K) (axis : Axis) (a : K) : Quaternion K :=
  match axis with
  | .x => ⟨w, a, zero, zero⟩
  | .y => ⟨w, zero, a, zero⟩
  | .z => ⟨w, zero, zero, a⟩

def dot (a b : Quaternion K) : K := a.w * b.w + a.x * b.x + a.y * b.y + a.z * b.z

/-- Unit length; a quaternion whose squared length is not positive becomes the identity. -/
def normalize (q : Quaternion K) : Quaternion K :=
  let square := dot q q
  if less zero square then
    let inv := one / sqrt square
    ⟨q.w * inv, q.x * inv, q.y * inv, q.z * inv⟩
  else identity

/-- The product that applies `b` first and then `a`. -/
def mul (a b : Quaternion K) : Quaternion K where
  w := a.w * b.w - a.x * b.x - a.y * b.y - a.z * b.z
  x := a.w * b.x + a.x * b.w + a.y * b.z - a.z * b.y
  y := a.w * b.y - a.x * b.z + a.y * b.w + a.z * b.x
  z := a.w * b.z + a.x * b.y - a.y * b.x + a.z * b.w

def conjugate (q : Quaternion K) : Quaternion K := ⟨q.w, -q.x, -q.y, -q.z⟩

def rotate (q : Quaternion K) (v : Triple K) : Triple K :=
  let r := mul (mul q ⟨zero, v.x, v.y, v.z⟩) (conjugate q)
  ⟨r.x, r.y, r.z⟩

def toMatrix (q : Quaternion K) : Triple (Triple K) :=
  let ⟨w, x, y, z⟩ := normalize q
  ⟨⟨one - two * (y * y + z * z), two * (x * y - w * z), two * (x * z + w * y)⟩,
    ⟨two * (x * y + w * z), one - two * (x * x + z * z), two * (y * z - w * x)⟩,
    ⟨two * (x * z - w * y), two * (y * z + w * x), one - two * (x * x + y * y)⟩⟩

/-- The unit quaternion about an axis nearest to a unit quaternion; `none` when the part of the
rotation that it would be made of is below the cutoff. -/
def twist? (q : Quaternion K) (axis : Axis) : Option (Quaternion K) :=
  let a := q.about axis
  let length := sqrt (q.w * q.w + a * a)
  if less length cutoff then none else some (onAxis (q.w / length) axis (a / length))

def swing (q twist : Quaternion K) : Quaternion K := mul q (conjugate twist)

end Quaternion

end PoseRig
