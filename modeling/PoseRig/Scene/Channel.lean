import PoseRig.Rotation.Euler

/-!
# Transform channels

A driver can read nine channels of a transform: three components each of location, rotation and
scale. A rotation channel is read after one of several ways of taking the rotation apart.
-/

set_option autoImplicit false

namespace PoseRig

inductive ChannelKind where
  | location
  | rotation
  | scale
  deriving DecidableEq, Repr, Inhabited

structure Channel where
  kind : ChannelKind
  axis : Axis
  deriving DecidableEq, Repr

instance : Inhabited Channel := ⟨⟨.location, .x⟩⟩

namespace Channel

def kindLabel : ChannelKind → String
  | .location => "LOC"
  | .rotation => "ROT"
  | .scale => "SCALE"

def axisLabel : Axis → String
  | .x => "X"
  | .y => "Y"
  | .z => "Z"

def axes : List Axis := [.x, .y, .z]

instance : Labelled Channel where
  all := [.location, .rotation, .scale].flatMap fun k => axes.map fun a => ⟨k, a⟩
  label c := kindLabel c.kind ++ "_" ++ axisLabel c.axis

def isRotation (c : Channel) : Bool := c.kind == .rotation

end Channel

inductive Space where
  | world
  | local
  deriving DecidableEq, Repr, Inhabited

instance : Labelled Space where
  all := [.world, .local]
  label
    | .world => "WORLD_SPACE"
    | .local => "LOCAL_SPACE"

inductive RotationReading where
  | auto
  | euler (order : EulerOrder)
  | quaternion
  | swingTwist (axis : Axis)
  deriving DecidableEq, Repr, Inhabited

namespace RotationReading

instance : Labelled RotationReading where
  all := .auto :: (Labelled.all : List EulerOrder).map .euler ++
    .quaternion :: Channel.axes.map .swingTwist
  label
    | .auto => "AUTO"
    | .euler order => label order
    | .quaternion => "QUATERNION"
    | .swingTwist axis => "SWING_TWIST_" ++ Channel.axisLabel axis

def eulerOrder? : RotationReading → Option EulerOrder
  | .euler order => some order
  | _ => none

def twistAxis? : RotationReading → Option Axis
  | .swingTwist axis => some axis
  | _ => none

/-- The angles that a rotation is authored as, if any, when they count; else the angles of the
rotation in the given order. -/
def anglesIn (order : EulerOrder) (q : Quat) (authored : Option (EulerOrder × Vec)) : Vec :=
  match authored with
  | some (own, angles) => if own = order then angles else Rotation.toEuler q order
  | none => Rotation.toEuler q order

/-- The component about `axis`, in radians. `auto` takes the authored angles in whatever order, or
the order XYZ for rotations without; swing and twist give the twist on its axis and the angles of
the swing elsewhere. -/
def component (reading : RotationReading) (q : Quat) (authored : Option (EulerOrder × Vec))
    (axis : Axis) : Scalar :=
  match reading with
  | .euler order => (anglesIn order q authored).get axis
  | .swingTwist about =>
    let (swing, twist) := Rotation.swingTwist q about
    if axis = about then twist else (Rotation.toEuler swing .xyz).get axis
  | .quaternion => q.about axis
  | .auto =>
    match authored with
    | some (_, angles) => angles.get axis
    | none => (Rotation.toEuler q .xyz).get axis

end RotationReading

end PoseRig
