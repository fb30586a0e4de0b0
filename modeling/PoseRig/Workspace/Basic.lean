import PoseRig.Network.Build
import PoseRig.Pose.Actions
import PoseRig.Pose.Bones
import PoseRig.Pose.Opposite
import PoseRig.Scene.Author

/-!
# Workspaces

Everything that commands act on: the scene and the name of the rig in it, the rig's library, another
library to copy to, the edit session and the preferences.
-/

set_option autoImplicit false

namespace PoseRig

structure Workspace where
  rig : String
  prefs : Preferences := {}
  scene : Scene := {}
  library : Library := {}
  other : Library := {}
  session : Session := .idle

inductive Answer where
  | done
  | number (n : Nat)
  | name (s : String)
  | flag (b : Bool)
  | names (ss : List String)
  | entry (e : BoneEntry)
  | report (r : Report)
  | outputs (os : List DriverOutput)
  | purged (c : PurgeCounts)

/-- What a command leads to: its answer or a fault, and the workspace it leaves in either case. -/
abbrev Outcome := Except Fault Answer × Workspace

namespace Workspace

variable {α : Type}

def done (w : Workspace) : Outcome := (.ok .done, w)

def settleScene (w : Workspace) (answer : α → Answer) : Except Fault (α × Scene) → Outcome
  | .error e => (.error e, w)
  | .ok (a, s) => (.ok (answer a), { w with scene := s })

def settleLibrary (w : Workspace) (answer : α → Answer) : Except Fault (α × Library) → Outcome
  | .error e => (.error e, w)
  | .ok (a, l) => (.ok (answer a), { w with library := l })

def settleBoth (w : Workspace) (answer : α → Answer) : Except Fault (α × Scene × Library) → Outcome
  | .error e => (.error e, w)
  | .ok (a, s, l) => (.ok (answer a), { w with scene := s, library := l })

def settleSceneOnly (w : Workspace) : Except Fault Scene → Outcome
  | .error e => (.error e, w)
  | .ok s => (.ok .done, { w with scene := s })

/-- The workspace with a library whose new selection is the answer. -/
def settleIndex (w : Workspace) : Except Fault Library → Outcome
  | .error e => (.error e, w)
  | .ok l => (.ok (.number l.index), { w with library := l })

/-- The workspace after a step on session and scene that may fail half way. -/
def settleEdit (w : Workspace) (r : Except Fault Report × Session × Scene) : Outcome :=
  (r.1.map .report, { w with session := r.2.1, scene := r.2.2 })

def settleSwitch (w : Workspace) (r : Except Fault Unit × Scene) : Outcome :=
  (r.1.map fun _ => .done, { w with scene := r.2 })

end Workspace

end PoseRig
