import PoseRig.Scene.Basic

/-!
# Authoring a document

Single changes to the objects, bones, constraints, drivers and curves of a scene.
-/

set_option autoImplicit false

namespace PoseRig.Scene

/-- The scene without an object; references to it are left as they are. -/
def removeObject (s : Scene) (name : String) : Scene :=
  { s with objects := s.objects.erase name }

def addCurve (s : Scene) (action : String) (c : Curve) : Except Fault Scene :=
  if s.hasAction action then
    .ok { s with actions := s.actions.update action fun a => a.addCurve c }
  else .error (.actionNotFound action)

def onArmature (s : Scene) (object : String) (f : Armature → Armature) : Except Fault Scene :=
  (s.armature object).map fun _ => s.updateArmature object f

def onBone (s : Scene) (object bone : String) (f : Bone → Bone) : Except Fault Scene :=
  (s.bone object bone).map fun _ => s.updateBone object bone f

def onObject (s : Scene) (object : String) (f : Object → Object) : Except Fault Scene :=
  (s.object object).map fun _ => s.updateObject object f

def addBone (s : Scene) (object name : String) (b : Bone) : Except Fault Scene :=
  s.onArmature object fun a => { a with bones := a.bones.insert name b }

def removeBone (s : Scene) (object name : String) : Except Fault (Bool × Scene) :=
  match s.armature object with
  | .error e => .error e
  | .ok a =>
    .ok (a.bones.contains name,
      s.updateArmature object fun a => { a with bones := a.bones.erase name })

def setTransform (s : Scene) (object : String) (bone : Option String) (t : Transform) :
    Except Fault Scene :=
  match bone with
  | none => s.onObject object fun o => { o with transform := t }
  | some b => s.onBone object b fun b => { b with transform := t }

def setSelect (s : Scene) (object bone : String) (select : Bool) : Except Fault Scene :=
  s.onBone object bone fun b => { b with select := select }

def setActiveBone (s : Scene) (object : String) (bone : Option String) : Except Fault Scene :=
  s.onArmature object fun a => { a with activeBone := bone }

def addConstraint (s : Scene) (object bone : String) (c : Constraint) :
    Except Fault (String × Scene) :=
  match s.bone object bone with
  | .error e => .error e
  | .ok b => .ok (b.freshName c.name, s.updateBone object bone fun b => b.addConstraint c)

def removeConstraints (s : Scene) (object bone : String) (p : String → Bool) :
    Except Fault (List String × Scene) :=
  match s.bone object bone with
  | .error e => .error e
  | .ok b => .ok (b.namesWhere p, s.updateBone object bone fun b => b.removeConstraints p)

def addDriver (s : Scene) (object : String) (d : Driver) : Except Fault Scene :=
  s.onObject object fun o => o.addDriver d

def driver? (s : Scene) (object : String) (path : Path) : Except Fault (Option Driver) :=
  (s.object object).map fun o => o.animation.bind fun a => a.find? path

/-- Removes the driver on a path; gives whether there was one. An object without animation data has
empty ones afterwards. -/
def removeDriver (s : Scene) (object : String) (path : Path) : Except Fault (Bool × Scene) :=
  match s.object object with
  | .error e => .error e
  | .ok o =>
    .ok ((o.animationOrNew.find? path).isSome,
      s.updateObject object fun o =>
        { o with animation := some (o.animationOrNew.removeWhere fun p => p == path) })

end PoseRig.Scene
