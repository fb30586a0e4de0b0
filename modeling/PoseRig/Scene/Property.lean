import PoseRig.Scene.Basic

/-!
# Properties of objects

What a path can read of an object, and what it can write: custom properties of the object and its
bones, the evaluation time and influence of a constraint, and single components of transforms.
-/

set_option autoImplicit false

namespace PoseRig

def Constraint.value (c : Constraint) : Value :=
  .ofFields [
    ("name", .text c.name),
    ("enabled", .bool c.enabled),
    ("action", .text (c.action.getD "")),
    ("frame_start", .int c.frameStart),
    ("frame_end", .int c.frameEnd),
    ("mix_mode", .text (label c.mix)),
    ("influence", .float c.influence),
    ("use_eval_time", .bool c.useEvalTime),
    ("eval_time", .float c.evalTime)]

namespace Bone

def attributes (b : Bone) : List (String × Value) := [
  ("location", .vec3 b.transform.location),
  ("rotation_euler", .vec3 b.transform.rotationEuler),
  ("rotation_quaternion", .quat b.transform.rotationQuaternion),
  ("rotation_mode", .text (label b.transform.rotationMode)),
  ("scale", .vec3 b.transform.scale),
  ("head", .vec3 b.head),
  ("select", .bool b.select),
  ("parent", .text (b.parent.getD "")),
  ("constraints", .ofFields (b.constraints.map fun c => (c.name, c.value)))]

/-- A bone as a record; its attributes hide custom properties of the same name. -/
def value (b : Bone) : Value := .ofFields (b.properties.entries ++ b.attributes)

end Bone

namespace Object

def attribute? (o : Object) (name : String) : Option Value :=
  if name = "type" then some (.text (label o.kind))
  else if name = "location" then some (.vec3 o.transform.location)
  else if name = "rotation_euler" then some (.vec3 o.transform.rotationEuler)
  else if name = "rotation_quaternion" then some (.quat o.transform.rotationQuaternion)
  else if name = "rotation_mode" then some (.text (label o.transform.rotationMode))
  else if name = "scale" then some (.vec3 o.transform.scale)
  else if name = "pose" then
    o.armature.map fun a =>
      .ofFields [("bones", .ofFields (a.bones.entries.map fun e => (e.1, e.2.value)))]
  else if name = "animation_data" then
    o.animation.map fun a => .ofFields [("action", .text (a.action.getD ""))]
  else none

def source (o : Object) : Source where
  field? := o.attribute?
  key? := o.properties.get?
  index? _ := none

end Object

namespace Transform

def setTriple? (v : Vec) (i : Nat) (x : Scalar) : Option Vec :=
  (Axis.ofIndex? i).map fun a => v.set a x

def setQuat? (q : Quat) (i : Nat) (x : Scalar) : Option Quat :=
  match i with
  | 0 => some { q with w := x }
  | 1 => some { q with x := x }
  | 2 => some { q with y := x }
  | 3 => some { q with z := x }
  | _ => none

def setComponent? (t : Transform) (part : String) (i : Nat) (x : Scalar) : Option Transform :=
  if part = "location" then (setTriple? t.location i x).map fun v => { t with location := v }
  else if part = "rotation_euler" then
    (setTriple? t.rotationEuler i x).map fun v => { t with rotationEuler := v }
  else if part = "rotation_quaternion" then
    (setQuat? t.rotationQuaternion i x).map fun q => { t with rotationQuaternion := q }
  else if part = "scale" then (setTriple? t.scale i x).map fun v => { t with scale := v }
  else none

end Transform

def Constraint.set? (c : Constraint) (part : String) (x : Scalar) : Option Constraint :=
  if part = "eval_time" then some { c with evalTime := x }
  else if part = "influence" then some { c with influence := x }
  else none

def Bone.write? (b : Bone) (selectors : List Selector) (x : Scalar) : Option Bone :=
  match selectors with
  | [.key name] => some { b with properties := b.properties.insert name (.float x) }
  | [.field constraints, .key name, .field part] =>
    if constraints = "constraints" then
      match b.constraint? name with
      | none => none
      | some c => (c.set? part x).map fun c' => b.updateConstraint name fun _ => c'
    else none
  | [.field part, .index i] =>
    (b.transform.setComponent? part i x).map fun t => { b with transform := t }
  | _ => none

def Object.write (o : Object) (name : String) (path : Path) (x : Scalar) : Except Fault Object :=
  match path.selectors with
  | [.key key] => .ok (o.setProperty key (.float x))
  | [.field part, .index i] =>
    match o.transform.setComponent? part i x with
    | some t => .ok { o with transform := t }
    | none => .error (.unwritable path)
  | .field pose :: .field bones :: .key bone :: rest =>
    if pose = "pose" ∧ bones = "bones" then
      match o.armature.bind fun a => a.bones.get? bone with
      | none => .error (.boneNotFound name bone)
      | some b =>
        match b.write? rest x with
        | some b' =>
          .ok { o with armature := o.armature.map fun a => a.updateBone bone fun _ => b' }
        | none => .error (.unwritable path)
    else .error (.unwritable path)
  | _ => .error (.unwritable path)

namespace Scene

def readProperty (s : Scene) (object : String) (path : Path) : Except Fault Scalar :=
  match s.object object with
  | .error e => .error e
  | .ok o =>
    match path.resolve o.source with
    | .error e => .error (.path e)
    | .ok v =>
      match v.toScalar? with
      | some x => .ok x
      | none => .error (.notScalar path)

def writeProperty (s : Scene) (object : String) (path : Path) (x : Scalar) : Except Fault Scene :=
  match s.object object with
  | .error e => .error e
  | .ok o =>
    match o.write object path x with
    | .error e => .error e
    | .ok o' => .ok (s.setObject object o')

end Scene

end PoseRig
