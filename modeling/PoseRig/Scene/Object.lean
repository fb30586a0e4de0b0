import PoseRig.Scene.Action
import PoseRig.Scene.Constraint
import PoseRig.Scene.Driver
import PoseRig.Transform
import PoseRig.Property.Value
import PoseRig.Naming.Numbered

/-!
# Objects, armatures and bones

A bone carries constraints with distinct names; one whose name is taken is added under a numbered
name.
-/

set_option autoImplicit false

namespace PoseRig

structure Bone where
  parent : Option String := none
  head : Vec := .splat 0
  transform : Transform := {}
  select : Bool := false
  constraints : List Constraint := []
  properties : Table Value := .empty

namespace Bone

instance : Inhabited Bone := ⟨{}⟩

def constraintNames (b : Bone) : List String := b.constraints.map (·.name)

def freshName (b : Bone) (name : String) : String := Naming.fresh b.constraintNames name

def addConstraint (b : Bone) (c : Constraint) : Bone :=
  { b with constraints := b.constraints ++ [{ c with name := b.freshName c.name }] }

def constraint? (b : Bone) (name : String) : Option Constraint :=
  b.constraints.find? fun c => c.name == name

def updateFirst (name : String) (f : Constraint → Constraint) : List Constraint → List Constraint
  | [] => []
  | c :: r => if c.name = name then f c :: r else c :: updateFirst name f r

def updateConstraint (b : Bone) (name : String) (f : Constraint → Constraint) : Bone :=
  { b with constraints := updateFirst name f b.constraints }

def removeConstraints (b : Bone) (p : String → Bool) : Bone :=
  { b with constraints := b.constraints.filter fun c => !p c.name }

def namesWhere (b : Bone) (p : String → Bool) : List String := b.constraintNames.filter p

end Bone

structure Armature where
  bones : Table Bone := .empty
  activeBone : Option String := none

namespace Armature

instance : Inhabited Armature := ⟨{}⟩

def selected (a : Armature) : List String :=
  (a.bones.entries.filter fun e => e.2.select).map Prod.fst

def updateBone (a : Armature) (name : String) (f : Bone → Bone) : Armature :=
  { a with bones := a.bones.update name f }

def mapBones (a : Armature) (f : String → Bone → Bone) : Armature :=
  { a with bones := a.bones.map f }

end Armature

structure Object where
  kind : ObjectKind := .empty
  transform : Transform := {}
  armature : Option Armature := none
  animation : Option Animation := none
  properties : Table Value := .empty

namespace Object

instance : Inhabited Object := ⟨{}⟩

def ofKind (kind : ObjectKind) : Object :=
  { kind := kind, armature := if kind = .armature then some {} else none }

def animationOrNew (o : Object) : Animation := o.animation.getD {}

def activeAction (o : Object) : Option String := o.animation.bind (·.action)

def setActiveAction (o : Object) (action : Option String) : Object :=
  { o with animation := some { o.animationOrNew with action := action } }

def addDriver (o : Object) (d : Driver) : Object :=
  { o with animation := some (o.animationOrNew.add d) }

def setProperty (o : Object) (name : String) (v : Value) : Object :=
  { o with properties := o.properties.insert name v }

end Object

end PoseRig
