import PoseRig.Pose.Library
import PoseRig.Report

/-!
# Actions of poses

Making, copying, renaming and deleting the action of a pose, in the scene and in
the library at once.
-/

set_option autoImplicit false

namespace PoseRig.Library

def actionOf (l : Library) (index : Nat) : Except Fault (Pose × String) :=
  match l.get index with
  | .error e => .error e
  | .ok p =>
    match p.action with
    | some name => .ok (p, name)
    | none => .error (.noAction p.name)

def actionPrefix (prefs : Preferences) (p : Pose) : String :=
  if p.isCombo then prefs.comboPrefix else prefs.posePrefix

def newAction (l : Library) (s : Scene) (prefs : Preferences) (index : Nat) :
    Except Fault (String × Scene × Library) :=
  match l.get index with
  | .error e => .error e
  | .ok p =>
    let (name, s) := s.addAction (actionPrefix prefs p ++ p.name) { keep := true }
    .ok (name, s, l.setPose index { p with action := some name })

def duplicateAction (l : Library) (s : Scene) (index : Nat) :
    Except Fault (String × Scene × Library) :=
  match l.actionOf index with
  | .error e => .error e
  | .ok (p, current) =>
    match s.actions.get? current with
    | none => .error (.actionNotFound current)
    | some a =>
      let (name, s) := s.addAction current a
      .ok (name, s, l.setPose index { p with action := some name })

/-- Deletes the pose's action and the references to it; when it is already gone, those of
the poses only. -/
def deleteAction (l : Library) (s : Scene) (index : Nat) :
    Except Fault (String × Scene × Library) :=
  match l.actionOf index with
  | .error e => .error e
  | .ok (_, name) => .ok (name, s.removeAction name, l.retarget name none)

def renameAction (l : Library) (s : Scene) (index : Nat) (new : String) :
    Except Fault (String × Scene × Library) :=
  match l.actionOf index with
  | .error e => .error e
  | .ok (_, old) =>
    match s.renameAction old new with
    | .error e => .error e
    | .ok (name, s) => .ok (name, s, l.retarget old (some name))

def removeFlatCurves (l : Library) (s : Scene) (index : Nat) : Except Fault (Report × Scene) :=
  match l.actionOf index with
  | .error e => .error e
  | .ok (_, name) =>
    match s.actions.get? name with
    | none => .error (.actionNotFound name)
    | some a =>
      .ok (.info (toString a.flatCount ++ " flat curves removed from '" ++ name ++ "'"),
        { s with actions := s.actions.update name Action.withoutFlat })

end PoseRig.Library
