import PoseRig.Workspace.Basic

/-!
# Questions

What can be asked of a workspace without changing it, where the answer concerns a pose at a position
of the library or more than one part of the workspace.
-/

set_option autoImplicit false

namespace PoseRig

structure Opposites where
  bone : Option String
  object : Option String
  action : Option String
  pose : Option String
  deriving DecidableEq, Repr

namespace Scene

def constraint? (s : Scene) (object bone name : String) : Except Fault (Option Constraint) :=
  (s.bone object bone).map fun b => b.constraint? name

end Scene

namespace Workspace

def invalid? (w : Workspace) (index : Nat) : Except Fault (Option Invalid) :=
  (w.library.get index).map fun p => p.invalid? w.scene

def inputs (w : Workspace) (index : Nat) : Except Fault (List Input) :=
  match w.library.get index with
  | .error e => .error e
  | .ok p => w.library.inputs p

def nested (w : Workspace) (index : Nat) : Except Fault (List Pose) :=
  match w.library.get index with
  | .error e => .error e
  | .ok p => w.library.nested p

def opposites (w : Workspace) (object name : String) : Opposites where
  bone := w.scene.oppositeBone? w.prefs object name
  object := w.scene.oppositeObject? w.prefs name
  action := w.scene.oppositeAction? w.prefs name
  pose := w.library.oppositePose? w.prefs name

end Workspace

end PoseRig
