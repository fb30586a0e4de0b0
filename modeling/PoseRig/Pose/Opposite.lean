import PoseRig.Pose.Library

/-!
# The other side of a pose

A pose is carried to the other side by swapping the side suffix of its name and of every reference
whose counterpart exists; a reference without one is kept.
-/

set_option autoImplicit false

namespace PoseRig

namespace Scene

def oppositeBone? (s : Scene) (prefs : Preferences) (object bone : String) : Option String :=
  match s.armature object with
  | .error _ => none
  | .ok a => prefs.opposite? a.bones.contains bone

def oppositeObject? (s : Scene) (prefs : Preferences) (object : String) : Option String :=
  prefs.opposite? s.hasObject object

def oppositeAction? (s : Scene) (prefs : Preferences) (action : String) : Option String :=
  prefs.opposite? s.hasAction action

end Scene

namespace Library

def oppositePose? (l : Library) (prefs : Preferences) (pose : String) : Option String :=
  prefs.opposite? (fun n => (l.find? n).isSome) pose

/-- The object whose bones the driving bone of a pose belongs to: the target if it is an armature,
else the rig. -/
def boneOwner (s : Scene) (rig : String) (target : Option String) : String :=
  match target with
  | some t =>
    match s.armature t with
    | .ok _ => t
    | .error _ => rig
  | none => rig

/-- The pose as it would be on the other side, under a name that is free. -/
def oppositeOf (l : Library) (s : Scene) (rig : String) (prefs : Preferences) (p : Pose) : Pose :=
  let target := p.target.map fun t => (s.oppositeObject? prefs t).getD t
  { p.duplicate with
    name := l.freshName (prefs.swapSide p.name)
    target := target
    bone := (s.oppositeBone? prefs (boneOwner s rig target) p.bone).getD p.bone
    action := p.action.map fun a => (s.oppositeAction? prefs a).getD a
    bones := p.bones.map fun e =>
      { e with bone := (s.oppositeBone? prefs rig e.bone).getD e.bone }
    partA := (l.oppositePose? prefs p.partA).getD p.partA
    partB := (l.oppositePose? prefs p.partB).getD p.partB }

def addOpposite (l : Library) (s : Scene) (rig : String) (prefs : Preferences) (index : Nat) :
    Except Fault Library :=
  match l.get index with
  | .error e => .error e
  | .ok p => .ok (l.insertAfter index (l.oppositeOf s rig prefs p))

end Library

end PoseRig
