import PoseRig.Naming.Side
import PoseRig.Label

/-!
# Preferences

The names that compiled things are recognised by, and how blend terms are shaped.
-/

set_option autoImplicit false

namespace PoseRig

/-- Whether a normalized term may fall below zero. -/
inductive BlendMode where
  | raw
  | floored
  deriving DecidableEq, Repr, Inhabited

instance : Labelled BlendMode where
  all := [.raw, .floored]
  label
    | .raw => "RAW"
    | .floored => "FLOORED"

structure Preferences where
  constraintPrefix : String := "AP-"
  leftSuffix : String := ".L"
  rightSuffix : String := ".R"
  posePrefix : String := "AP-"
  comboPrefix : String := "AC-"
  defaultName : String := "Pose"
  tempMarker : String := "AP_TEMP-"
  blendMode : BlendMode := .raw
  deriving DecidableEq, Repr, Inhabited

namespace Preferences

def swapSide (p : Preferences) (name : String) : String :=
  Naming.swapSide p.leftSuffix p.rightSuffix name

/-- The name of the other side when it differs and something there has it. -/
def opposite? (p : Preferences) (existing : String → Bool) (name : String) : Option String :=
  let swapped := p.swapSide name
  if swapped ≠ name ∧ existing swapped = true then some swapped else none

end Preferences

end PoseRig
