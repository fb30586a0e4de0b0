import PoseRig.Rotation.Euler

/-!
# Transforms and placements

A transform is authored data: a location, both rotation forms with the mode that says which one
counts, and a scale. A placement is what a transform amounts to; placements compose, without shear.
-/

set_option autoImplicit false

namespace PoseRig

structure Transform where
  location : Vec := .splat 0
  rotationEuler : Vec := .splat 0
  rotationQuaternion : Quat := .identity
  rotationMode : RotationMode := .quaternion
  scale : Vec := .splat 1
  deriving Repr

structure Placement where
  offset : Vec
  rotation : Quat
  scale : Vec
  deriving Repr

namespace Placement

def identity : Placement := ⟨.splat 0, .identity, .splat 1⟩

def ofOffset (v : Vec) : Placement := { identity with offset := v }

def compose (parent child : Placement) : Placement where
  offset := parent.offset.add (parent.rotation.rotate (parent.scale.scale child.offset))
  rotation := (parent.rotation.mul child.rotation).normalize
  scale := parent.scale.scale child.scale

end Placement

namespace Transform

instance : Inhabited Transform := ⟨{}⟩

def reset (t : Transform) : Transform := { rotationMode := t.rotationMode }

def equalTriples (a b : Vec) : Bool := a.x == b.x && a.y == b.y && a.z == b.z

def equalQuats (a b : Quat) : Bool := a.w == b.w && a.x == b.x && a.y == b.y && a.z == b.z

/-- Whether everything but the rotation mode is at rest; both zeros count as zero. -/
def isRest (t : Transform) : Bool :=
  equalTriples t.location (.splat 0) && equalTriples t.rotationEuler (.splat 0) &&
    equalQuats t.rotationQuaternion .identity && equalTriples t.scale (.splat 1)

def rotation (t : Transform) : Quat :=
  match t.rotationMode with
  | .euler order => Rotation.ofEuler t.rotationEuler order
  | .quaternion => t.rotationQuaternion.normalize

def placement (t : Transform) : Placement := ⟨t.location, t.rotation, t.scale⟩

end Transform

end PoseRig
