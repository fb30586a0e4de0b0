import PoseRig.Network.Inputs
import PoseRig.Scene.Driver
import PoseRig.Number.Text

/-!
# Blend expressions

The inputs of a pose become one driver. Each variable is normalized over its range, rotations in
degrees, and the expression takes the least of the terms.
-/

set_option autoImplicit false

namespace PoseRig

namespace Input

def readingText (i : Input) (name : String) : String :=
  if i.isRotation then "degrees(" ++ name ++ ")" else name

/-- The normalized reading of a variable, held above zero when the mode is floored. -/
def term (i : Input) (mode : BlendMode) (name : String) : String :=
  let low := i.low.text
  let high := i.high.text
  let ratio := "(" ++ i.readingText name ++ " - " ++ low ++ ") / (" ++ high ++ " - " ++ low ++ ")"
  match mode with
  | .raw => ratio
  | .floored => "max(0, " ++ ratio ++ ")"

def variableSource (i : Input) : VariableSource :=
  match i.source with
  | .channel bone channel space _ =>
    .channel i.target bone channel space (i.reading?.getD .auto)
  | .property path => .property i.target path

end Input

namespace Network

def variableName (i : Nat) : String := "var" ++ toString i

def named (start : Nat) : List Input → List (String × Input)
  | [] => []
  | i :: r => (variableName start, i) :: named (start + 1) r

def expression? (mode : BlendMode) (inputs : List Input) : Option String :=
  if inputs.isEmpty then none
  else some ("min(" ++ ", ".intercalate ((named 0 inputs).map fun v => v.2.term mode v.1) ++ ")")

def blendDriver? (mode : BlendMode) (inputs : List Input) (path : Path) : Option Driver :=
  (expression? mode inputs).map fun e =>
    ⟨path, e, (named 0 inputs).map fun v => ⟨v.1, v.2.variableSource⟩⟩

end Network

end PoseRig
