import PoseRig.Edit.Session
import PoseRig.Edit.Nested
import PoseRig.Network.Compile
import PoseRig.Network.Purge

/-!
# Editing the action of a pose

Entering takes a snapshot of the rig, clears every bone to rest, makes the pose's action active,
turns auto-key on and the compiled network off; for a combo every nested simple pose gets temporary
constraints at full evaluation time. Leaving puts the snapshot back and removes the temporary
constraints.
-/

set_option autoImplicit false

namespace PoseRig

namespace Armature

def restBones (a : Armature) : Armature :=
  a.mapBones fun _ b => { b with transform := b.transform.reset }

/-- Transforms and selection as they were; bones that are new are at rest and not selected. -/
def restore (snapshot : Snapshot) (a : Armature) : Armature :=
  { a.mapBones fun n b =>
      { b with
        select := decide (n ∈ snapshot.selectedBones)
        transform := (snapshot.transforms.get? n).getD b.transform.reset } with
    activeBone := snapshot.activeBone.filter a.bones.contains }

end Armature

namespace Object

def removeTemp (prefs : Preferences) (o : Object) : Object :=
  { o with
    animation := o.animation.map fun a => a.removeWhere fun p => p.constraint?.any prefs.isTemp
    armature := o.armature.map fun a => a.mapBones fun _ b => b.removeConstraints prefs.isTemp }

end Object

namespace Edit

def snapshot (s : Scene) (o : Object) (a : Armature) (pose : String) : Snapshot where
  pose := pose
  activeObject := s.activeObject
  activeAction := o.activeAction
  selectedBones := a.selected
  activeBone := a.activeBone
  transforms := a.bones.map fun _ b => b.transform
  autoKey := s.autoKey

def tryAssign (s : Scene) (rig : String) (action : Option String) : Report × Scene :=
  match s.assignAction rig action with
  | .ok s' => ({}, s')
  | .error _ => (.error ("action couldn't be assigned: " ++ action.getD ""), s)

def placeTemp (prefs : Preferences) : List Pose → Armature → Report × Armature
  | [], a => ({}, a)
  | p :: r, a =>
    let attached := Network.place p (prefs.tempConstraintName p.name) 1 p.bones a
    let (report, a) := placeTemp prefs r attached.armature
    (attached.report ++ report, a)

def shownWith (l : Library) (p : Pose) : Except Fault (List Pose) :=
  if p.isCombo then l.nested p else .ok []

/-- Enters action edit for the pose at a position. An action that cannot be assigned is reported. -/
def enter (prefs : Preferences) (rig : String) (l : Library) (index : Nat) (session : Session)
    (s : Scene) : Except Fault (Report × Session × Scene) :=
  if session.isEditing then .error .alreadyEditing
  else
    match l.get index with
    | .error e => .error e
    | .ok p =>
      match shownWith l p with
      | .error e => .error e
      | .ok nested =>
        match s.object rig, s.armature rig with
        | .error e, _ => .error e
        | _, .error e => .error e
        | .ok o, .ok a =>
          let taken := snapshot s o a p.name
          let (assigned, s) := tryAssign (s.updateArmature rig (·.restBones)) rig p.action
          let shown := placeTemp prefs nested
            (a.restBones.mapBones fun _ b => b.setEnabled prefs false)
          let s := { s with autoKey := true }.updateArmature rig fun _ => shown.2
          .ok (assigned ++ shown.1 ++ .info ("action edit engaged for '" ++ p.name ++ "'"),
            .editing taken, s)

/-- Makes the object that was active on entry active again, when another one is. -/
def restoreActive (former : Option String) (s : Scene) : Report × Scene :=
  match former with
  | none => ({}, s)
  | some name =>
    if s.activeObject = some name then ({}, s)
    else if s.hasObject name then ({}, { s with activeObject := some name, mode := .pose })
    else
      (.error ("active object couldn't be restored: " ++ name), { s with mode := .pose })

/-- Leaves action edit and puts the snapshot back. What cannot be restored is reported; a rig that
is no longer an armature is a fault, after which the session is over all the same. -/
def leave (prefs : Preferences) (rig : String) (session : Session) (s : Scene) :
    Except Fault Report × Session × Scene :=
  match session with
  | .idle => (.error .notEditing, .idle, s)
  | .editing taken =>
    let (restored, s) := restoreActive taken.activeObject { s with autoKey := false }
    let (assigned, s) := tryAssign s rig taken.activeAction
    match s.armature rig with
    | .error e => (.error e, .idle, s)
    | .ok _ =>
      let s := s.updateArmature rig (·.restore taken)
      let s := s.updateObject rig (·.removeTemp prefs)
      let s := s.updateArmature rig fun a => a.mapBones fun _ b => b.setEnabled prefs true
      (.ok (restored ++ assigned ++ .info ("action edit disabled for '" ++ taken.pose ++ "'")),
        .idle, { s with autoKey := taken.autoKey })

def toggle (prefs : Preferences) (rig : String) (l : Library) (index : Nat) (session : Session)
    (s : Scene) : Except Fault Report × Session × Scene :=
  if session.isEditing then leave prefs rig session s
  else
    match enter prefs rig l index session s with
    | .error e => (.error e, session, s)
    | .ok (report, session, s) => (.ok report, session, s)

end Edit

end PoseRig
