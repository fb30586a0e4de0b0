import PoseRig.Pose.Library

/-!
# Bone lists of poses

Editing the list of bones a pose plays on, from the bones selected on the rig or keyed in the pose's
action, and selecting bones from a pose. The selected entry of the list is kept inside it.
-/

set_option autoImplicit false

namespace PoseRig

namespace Pose

def addBones (p : Pose) (bones : List String) : Pose :=
  bones.foldl
    (fun p b => if p.hasBone b then p else { p with bones := p.bones ++ [{ bone := b }] }) p

end Pose

namespace Scene

def actionGroups (s : Scene) (p : Pose) : Except Fault (List String) :=
  match p.action with
  | none => .error (.noAction p.name)
  | some name =>
    match s.actions.get? name with
    | none => .error (.actionNotFound name)
    | some a => .ok a.groups

def selectBones (s : Scene) (rig : String) (bones : List String) : Except Fault (Nat × Scene) :=
  match s.armature rig with
  | .error e => .error e
  | .ok a =>
    .ok ((bones.filter a.bones.contains).length,
      s.updateArmature rig fun a =>
        a.mapBones fun n b => if n ∈ bones then { b with select := true } else b)

def selectPoseBones (s : Scene) (rig : String) (l : Library) (index : Nat) :
    Except Fault (Nat × Scene) :=
  match l.get index with
  | .error e => .error e
  | .ok p => s.selectBones rig p.boneNames

def selectActionBones (s : Scene) (rig : String) (l : Library) (index : Nat) :
    Except Fault (Nat × Scene) :=
  match l.get index with
  | .error e => .error e
  | .ok p =>
    match s.actionGroups p with
    | .error e => .error e
    | .ok groups => s.selectBones rig groups

/-- Makes the driving bone of a pose the selected and active one of its target, after making the
target the active object. What happened before a fault stays. -/
def selectTargetBone (s : Scene) (l : Library) (index : Nat) : Except Fault Unit × Scene :=
  match l.get index with
  | .error e => (.error e, s)
  | .ok p =>
    match p.target with
    | none => (.error (.noTarget p.name), s)
    | some target =>
      match s.switchActiveObject target with
      | (.error e, s) => (.error e, s)
      | (.ok _, s) =>
        match s.bone target p.bone with
        | .error e => (.error e, s)
        | .ok _ =>
          (.ok (), s.updateArmature target fun a =>
            { a.updateBone p.bone fun b => { b with select := true } with
              activeBone := some p.bone })

end Scene

namespace Library

def setBones (l : Library) (index : Nat) (p : Pose) (selected : Nat) : Library :=
  { l.setPose index p with bonesIndex := selected }

def addBoneEntry (l : Library) (index : Nat) : Except Fault (Nat × Library) :=
  match l.get index with
  | .error e => .error e
  | .ok p =>
    .ok (p.bones.length, l.setBones index { p with bones := p.bones ++ [{}] } p.bones.length)

def removeBoneEntry (l : Library) (index entry : Nat) : Except Fault (BoneEntry × Library) :=
  match l.get index with
  | .error e => .error e
  | .ok p =>
    match p.bones[entry]? with
    | none => .error (.boneIndex entry p.bones.length)
    | some b => .ok (b, l.setBones index { p with bones := p.bones.eraseIdx entry } (entry - 1))

def removeAllBones (l : Library) (index : Nat) : Except Fault (Nat × Library) :=
  match l.get index with
  | .error e => .error e
  | .ok p => .ok (p.bones.length, l.setBones index { p with bones := [] } 0)

def addBones (l : Library) (index : Nat) (bones : List String) : Except Fault (Nat × Library) :=
  match l.get index with
  | .error e => .error e
  | .ok p =>
    let p' := p.addBones bones
    .ok (p'.bones.length - p.bones.length, l.setBones index p' (p'.bones.length - 1))

def addSelectedBones (l : Library) (s : Scene) (rig : String) (index : Nat) :
    Except Fault (Nat × Library) :=
  match s.armature rig with
  | .error e => .error e
  | .ok a => l.addBones index a.selected

def removeSelectedBones (l : Library) (s : Scene) (rig : String) (index : Nat) :
    Except Fault (Nat × Library) :=
  match s.armature rig with
  | .error e => .error e
  | .ok a =>
    match l.get index with
    | .error e => .error e
    | .ok p =>
      let bones := p.bones.filter fun e => !a.selected.contains e.bone
      .ok (p.bones.length - bones.length,
        l.setBones index { p with bones := bones } (min l.bonesIndex (bones.length - 1)))

/-- Adds entries for the bones of the rig that the pose's action has groups for. -/
def addFromAction (l : Library) (s : Scene) (rig : String) (index : Nat) :
    Except Fault (Nat × Library) :=
  match l.get index with
  | .error e => .error e
  | .ok p =>
    match s.actionGroups p with
    | .error e => .error e
    | .ok groups =>
      match s.armature rig with
      | .error e => .error e
      | .ok a => l.addBones index (groups.filter a.bones.contains)

def setActiveBoneAsTarget (l : Library) (s : Scene) (rig : String) (index : Nat) :
    Except Fault Library :=
  match s.armature rig with
  | .error e => .error e
  | .ok a =>
    match a.activeBone with
    | none => .error .noActiveBone
    | some bone =>
      match l.get index with
      | .error e => .error e
      | .ok p =>
        .ok (l.setPose index
          { p with target := some rig, targetKind := .boneTransform, bone := bone })

end Library

end PoseRig
