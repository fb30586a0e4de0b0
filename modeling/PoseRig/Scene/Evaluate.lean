import PoseRig.Scene.Property
import PoseRig.Scene.World
import PoseRig.Expr.Parser

/-!
# Evaluating drivers

The drivers of an object are evaluated in order, each on the scene that the ones before it left. A
driver whose expression is invalid or one of whose variables cannot be read has no value and writes
nothing; a value for a path that cannot be written is given but not applied.
-/

set_option autoImplicit false

namespace PoseRig.Scene

def sourceValue (s : Scene) : VariableSource → Except Fault Scalar
  | .channel object bone channel space reading => s.channelValue object bone channel space reading
  | .property object path => s.readProperty object path

def readVariables (s : Scene) : List Variable → Except Fault (List (String × Scalar))
  | [] => .ok []
  | v :: r =>
    match s.sourceValue v.source with
    | .error e => .error e
    | .ok x =>
      match readVariables s r with
      | .error e => .error e
      | .ok xs => .ok ((v.name, x) :: xs)

def driverValue (s : Scene) (d : Driver) : Except Fault Scalar :=
  match Expr.parse d.expression with
  | .error e => .error (.expression e)
  | .ok e =>
    match s.readVariables d.vars with
    | .error e => .error e
    | .ok values =>
      match e.eval fun name => values.lookup name with
      | .error e => .error (.expression e)
      | .ok x => .ok x

/-- Evaluates one driver of an object and writes its value where it can be written. -/
def runDriver (object : String) (s : Scene) (d : Driver) : DriverOutput × Scene :=
  match s.driverValue d with
  | .error _ => (⟨d.dataPath, none, false⟩, s)
  | .ok x =>
    match s.writeProperty object d.dataPath x with
    | .error _ => (⟨d.dataPath, some x, false⟩, s)
    | .ok s' => (⟨d.dataPath, some x, true⟩, s')

def runDrivers (object : String) : List Driver → Scene → List DriverOutput × Scene
  | [], s => ([], s)
  | d :: r, s =>
    let (output, s) := runDriver object s d
    let (outputs, s) := runDrivers object r s
    (output :: outputs, s)

def evaluateDrivers (s : Scene) (object : String) : Except Fault (List DriverOutput × Scene) :=
  match s.object object with
  | .error e => .error e
  | .ok o => .ok (runDrivers object (o.animationOrNew.drivers) s)

end PoseRig.Scene
