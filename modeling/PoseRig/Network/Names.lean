import PoseRig.Preferences
import PoseRig.Property.Path

/-!
# Names of compiled things

A compiled constraint is known by the constraint marker in its name, a temporary one by
the temporary marker. Drivers are known by the constraint or the pose influence that
their path leads to.
-/

set_option autoImplicit false

namespace PoseRig

def occursIn (part : List Char) : List Char → Bool
  | [] => part.isEmpty
  | c :: r => part.isPrefixOf (c :: r) || occursIn part r

def contains (whole part : String) : Bool := occursIn part.toList whole.toList

namespace Preferences

def constraintName (p : Preferences) (pose : String) : String := p.constraintPrefix ++ pose

def tempConstraintName (p : Preferences) (pose : String) : String := p.tempMarker ++ pose

def isCompiled (p : Preferences) (name : String) : Bool := contains name p.constraintPrefix

def isTemp (p : Preferences) (name : String) : Bool := contains name p.tempMarker

end Preferences

namespace Path

def ofConstraint (bone constraint : String) : Path :=
  ⟨[.field "pose", .field "bones", .key bone, .field "constraints", .key constraint]⟩

def evalTime (bone constraint : String) : Path :=
  ⟨(ofConstraint bone constraint).selectors ++ [.field "eval_time"]⟩

def influence (pose : String) : Path := ⟨[.field "ap_poses", .key pose, .field "influence"]⟩

def influenceTarget? (p : Path) : Option String :=
  match p.selectors with
  | [.field root, .key pose, .field part] =>
    if root = "ap_poses" ∧ part = "influence" then some pose else none
  | _ => none

/-- The key right after the first `constraints` that a key follows. -/
def constraintIn : List Selector → Option String
  | .field part :: .key name :: r =>
    if part = "constraints" then some name else constraintIn (.key name :: r)
  | _ :: r => constraintIn r
  | [] => none

def constraint? (p : Path) : Option String := constraintIn p.selectors

end Path

end PoseRig
