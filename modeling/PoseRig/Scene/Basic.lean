import PoseRig.Scene.Object
import PoseRig.Fault

/-!
# Scenes

A scene is the document: objects and actions by name, the active object, the mode and the auto-key
flag. Removing or renaming an action carries every reference in the scene along.
-/

set_option autoImplicit false

namespace PoseRig

inductive Mode where
  | object
  | pose
  deriving DecidableEq, Repr, Inhabited

instance : Labelled Mode where
  all := [.object, .pose]
  label
    | .object => "OBJECT"
    | .pose => "POSE"

structure Scene where
  objects : Table Object := .empty
  actions : Table Action := .empty
  activeObject : Option String := none
  mode : Mode := .object
  autoKey : Bool := false

namespace Scene

instance : Inhabited Scene := ⟨{}⟩

def object (s : Scene) (name : String) : Except Fault Object :=
  match s.objects.get? name with
  | some o => .ok o
  | none => .error (.objectNotFound name)

def armature (s : Scene) (name : String) : Except Fault Armature :=
  match s.object name with
  | .error e => .error e
  | .ok o =>
    match o.armature with
    | some a => .ok a
    | none => .error (.notAnArmature name)

def bone (s : Scene) (object bone : String) : Except Fault Bone :=
  match s.armature object with
  | .error e => .error e
  | .ok a =>
    match a.bones.get? bone with
    | some b => .ok b
    | none => .error (.boneNotFound object bone)

def hasObject (s : Scene) (name : String) : Bool := s.objects.contains name

def hasAction (s : Scene) (name : String) : Bool := s.actions.contains name

def setObject (s : Scene) (name : String) (o : Object) : Scene :=
  { s with objects := s.objects.insert name o }

def updateObject (s : Scene) (name : String) (f : Object → Object) : Scene :=
  { s with objects := s.objects.update name f }

def updateArmature (s : Scene) (name : String) (f : Armature → Armature) : Scene :=
  s.updateObject name fun o => { o with armature := o.armature.map f }

def updateBone (s : Scene) (object bone : String) (f : Bone → Bone) : Scene :=
  s.updateArmature object fun a => a.updateBone bone f

def addAction (s : Scene) (name : String) (a : Action) : String × Scene :=
  let final := Naming.fresh s.actions.names name
  (final, { s with actions := s.actions.insert final a })

def retarget (old : String) (new : Option String) (reference : Option String) : Option String :=
  if reference = some old then new else reference

def retargetBone (old : String) (new : Option String) (b : Bone) : Bone :=
  { b with constraints := b.constraints.map fun c =>
    { c with action := retarget old new c.action } }

def retargetObject (old : String) (new : Option String) (o : Object) : Object :=
  { o with
    animation := o.animation.map fun a => { a with action := retarget old new a.action }
    armature := o.armature.map fun a => a.mapBones fun _ b => retargetBone old new b }

def retargetActions (s : Scene) (old : String) (new : Option String) : Scene :=
  { s with objects := s.objects.map fun _ o => retargetObject old new o }

/-- The scene without an action and without references to it; unchanged if there is none. -/
def removeAction (s : Scene) (name : String) : Scene :=
  if s.hasAction name then
    { s with actions := s.actions.erase name }.retargetActions name none
  else s

def renameAction (s : Scene) (old new : String) : Except Fault (String × Scene) :=
  if old = new then .ok (old, s)
  else
    match s.actions.get? old with
    | none => .error (.actionNotFound old)
    | some a =>
      let (final, s) := { s with actions := s.actions.erase old }.addAction new a
      .ok (final, s.retargetActions old (some final))

/-- Makes an action the active one of an object, or clears it. An action bound to another kind of
object is refused; an unbound one becomes bound to this kind. -/
def assignAction (s : Scene) (object : String) (action : Option String) : Except Fault Scene :=
  match s.object object with
  | .error e => .error e
  | .ok o =>
    let assigned := s.updateObject object fun o => o.setActiveAction action
    match action with
    | none => .ok assigned
    | some name =>
      match s.actions.get? name with
      | none => .error (.actionNotFound name)
      | some a =>
        match a.root with
        | none =>
          .ok { assigned with actions := s.actions.update name fun a =>
            { a with root := some o.kind } }
        | some root =>
          if root = o.kind then .ok assigned
          else .error (.incompatibleAction object name root o.kind)

def setActiveObject (s : Scene) (name : String) : Except Fault Scene :=
  match s.object name with
  | .error e => .error e
  | .ok _ => .ok { s with activeObject := some name }

/-- Makes another object active, leaving pose mode for it and entering it again on an armature. The
mode has changed when the object does not exist. -/
def switchActiveObject (s : Scene) (name : String) : Except Fault Unit × Scene :=
  if s.activeObject = some name then (.ok (), s)
  else
    let left := { s with mode := .object }
    match s.objects.get? name with
    | none => (.error (.objectNotFound name), left)
    | some o =>
      let mode := if s.mode = .pose ∧ o.kind = .armature then .pose else .object
      (.ok (), { left with activeObject := some name, mode := mode })

end Scene

end PoseRig
