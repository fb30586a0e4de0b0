import PoseRig.Scene.Channel
import PoseRig.Property.Path

/-!
# Drivers

A driver binds an expression to a path. Its variables read transform channels or single properties.
An object has at most one driver on a path: adding one replaces what was bound there.
-/

set_option autoImplicit false

namespace PoseRig

/-- Where a variable reads its value; an empty bone name stands for the object itself. -/
inductive VariableSource where
  | channel (object bone : String) (channel : Channel) (space : Space) (reading : RotationReading)
  | property (object : String) (path : Path)
  deriving DecidableEq, Repr

structure Variable where
  name : String
  source : VariableSource
  deriving DecidableEq, Repr

structure Driver where
  dataPath : Path
  expression : String
  vars : List Variable
  deriving DecidableEq, Repr

/-- What evaluating a driver gave: no value when the driver is invalid. -/
structure DriverOutput where
  dataPath : Path
  value : Option Scalar
  applied : Bool
  deriving Repr

structure Animation where
  action : Option String := none
  drivers : List Driver := []
  deriving DecidableEq, Repr, Inhabited

namespace Animation

def removeWhere (a : Animation) (p : Path → Bool) : Animation :=
  { a with drivers := a.drivers.filter fun d => !p d.dataPath }

def add (a : Animation) (d : Driver) : Animation :=
  let kept := a.removeWhere fun p => p == d.dataPath
  { kept with drivers := kept.drivers ++ [d] }

def find? (a : Animation) (path : Path) : Option Driver :=
  a.drivers.find? fun d => d.dataPath == path

def countWhere (a : Animation) (p : Path → Bool) : Nat :=
  (a.drivers.filter fun d => p d.dataPath).length

end Animation

end PoseRig
