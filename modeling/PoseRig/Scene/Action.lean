import PoseRig.Number.Bounds
import PoseRig.Number.Scalar
import PoseRig.Label

/-!
# Actions

An action is a named clip: curves with keys, and the list of groups that its curves belong to. For
bone channels the group is the bone's name.
-/

set_option autoImplicit false

namespace PoseRig

inductive ObjectKind where
  | empty
  | mesh
  | armature
  deriving DecidableEq, Repr, Inhabited

instance : Labelled ObjectKind where
  all := [.empty, .mesh, .armature]
  label
    | .empty => "EMPTY"
    | .mesh => "MESH"
    | .armature => "ARMATURE"

structure Keyframe where
  frame : Scalar
  value : Scalar
  deriving Repr

structure Curve where
  dataPath : String := ""
  arrayIndex : Nat := 0
  group : Option String := none
  keyframes : List Keyframe := []
  deriving Repr, Inhabited

namespace Curve

/-- A value in units of the fifth decimal place, multiplied in double precision, rounded half away
from zero and held within sixty-four bits; NaN counts as zero. -/
def flatUnits (x : Scalar) : Int :=
  match x.classify with
  | .nan => 0
  | .infinite negative => if negative then -Bounds.long else Bounds.long - 1
  | .finite negative m e =>
    let (m, e) := Scalar.doubleMultiple 100000 m e
    max (-Bounds.long) (min (Bounds.long - 1)
      (Scalar.signed negative (Scalar.roundedMultiple 1 m e)))

def isFlat (c : Curve) : Bool :=
  match c.keyframes.map fun k => flatUnits k.value with
  | [] => true
  | u :: us => us.all fun v => v == u

end Curve

structure Action where
  root : Option ObjectKind := none
  keep : Bool := false
  curves : List Curve := []
  groups : List String := []
  deriving Repr, Inhabited

namespace Action

def addGroup (groups : List String) : Option String → List String
  | none => groups
  | some g => if g ∈ groups then groups else groups ++ [g]

def addCurve (a : Action) (c : Curve) : Action :=
  { a with curves := a.curves ++ [c], groups := addGroup a.groups c.group }

/-- The action without its flat curves and without the groups that then have no curve. -/
def withoutFlat (a : Action) : Action :=
  let curves := a.curves.filter fun c => !c.isFlat
  { a with
    curves := curves
    groups := a.groups.filter fun g => curves.any fun c => c.group == some g }

def flatCount (a : Action) : Nat := a.curves.length - a.withoutFlat.curves.length

end Action

end PoseRig
