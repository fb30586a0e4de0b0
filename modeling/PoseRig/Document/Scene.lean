import PoseRig.Document.Value
import PoseRig.Scene.Basic

/-!
# Stored scenes

Every part of a scene as a record of named fields, and back. Fields with a default may be missing.
-/

set_option autoImplicit false

namespace PoseRig

open Document Json

namespace Transform

def fieldNames : List String :=
  ["location", "rotation_euler", "rotation_quaternion", "rotation_mode", "scale"]

def toJson (w : RealWriter) (t : Transform) : Json :=
  .obj [
    ("location", ofVec w t.location),
    ("rotation_euler", ofVec w t.rotationEuler),
    ("rotation_quaternion", ofQuat w t.rotationQuaternion),
    ("rotation_mode", ofChoice t.rotationMode),
    ("scale", ofVec w t.scale)]

def ofJsonIn? (turn : Turn) (j : Json) : Option Transform := do
  let fs ← j.record? fieldNames
  let d : Transform := {}
  let location ← orElse fs "location" vec? d.location
  let rotationEuler ← orElse fs "rotation_euler" vec? d.rotationEuler
  let rotationQuaternion ← orElse fs "rotation_quaternion" quat? d.rotationQuaternion
  let rotationMode ← orElse fs "rotation_mode" (choiceIn? RotationMode turn) d.rotationMode
  let scale ← orElse fs "scale" vec? d.scale
  return { location, rotationEuler, rotationQuaternion, rotationMode, scale }

def ofJson? (j : Json) : Option Transform := ofJsonIn? .atOnce j

end Transform

namespace Constraint

def fieldNames : List String :=
  ["name", "enabled", "action", "frame_start", "frame_end", "mix_mode", "influence",
    "use_eval_time", "eval_time"]

def toJson (w : RealWriter) (c : Constraint) : Json :=
  .obj [
    ("name", .str c.name),
    ("enabled", .bool c.enabled),
    ("action", ofOptionalText c.action),
    ("frame_start", .int c.frameStart),
    ("frame_end", .int c.frameEnd),
    ("mix_mode", ofChoice c.mix),
    ("influence", w c.influence),
    ("use_eval_time", .bool c.useEvalTime),
    ("eval_time", w c.evalTime)]

def ofJson? (j : Json) : Option Constraint := do
  let fs ← j.record? fieldNames
  let d : Constraint := {}
  let name ← orElse fs "name" text? d.name
  let enabled ← orElse fs "enabled" flag? d.enabled
  let action ← orElse fs "action" optionalText? d.action
  let frameStart ← orElse fs "frame_start" frame? d.frameStart
  let frameEnd ← orElse fs "frame_end" frame? d.frameEnd
  let mix ← orElse fs "mix_mode" (choice? Mix) d.mix
  let influence ← orElse fs "influence" scalar? d.influence
  let useEvalTime ← orElse fs "use_eval_time" flag? d.useEvalTime
  let evalTime ← orElse fs "eval_time" scalar? d.evalTime
  return { name, enabled, action, frameStart, frameEnd, mix, influence, useEvalTime, evalTime }

end Constraint

namespace Bone

def fieldNames : List String :=
  ["parent", "head", "transform", "select", "constraints", "properties"]

def toJson (w : RealWriter) (b : Bone) : Json :=
  .obj [
    ("parent", ofOptionalText b.parent),
    ("head", ofVec w b.head),
    ("transform", b.transform.toJson w),
    ("select", .bool b.select),
    ("constraints", .arr (b.constraints.map (·.toJson w))),
    ("properties", ofTable (Value.toJson w) b.properties)]

def ofJson? (j : Json) : Option Bone := do
  let fs ← j.record? fieldNames
  let d : Bone := {}
  let parent ← orElse fs "parent" optionalText? d.parent
  let head ← orElse fs "head" vec? d.head
  let transform ← orElse fs "transform" Transform.ofJson? d.transform
  let select ← orElse fs "select" flag? d.select
  let constraints ← orElse fs "constraints" (list? Constraint.ofJson?) d.constraints
  let properties ← orElse fs "properties" (table? Value.ofJson?) d.properties
  return { parent, head, transform, select, constraints, properties }

end Bone

namespace Armature

def fieldNames : List String := ["bones", "active_bone"]

def toJson (w : RealWriter) (a : Armature) : Json :=
  .obj [
    ("bones", ofTable (Bone.toJson w) a.bones),
    ("active_bone", ofOptionalText a.activeBone)]

def ofJson? (j : Json) : Option Armature := do
  let fs ← j.record? fieldNames
  let d : Armature := {}
  let bones ← orElse fs "bones" (table? Bone.ofJson?) d.bones
  let activeBone ← orElse fs "active_bone" optionalText? d.activeBone
  return { bones, activeBone }

end Armature

namespace VariableSource

def channelFields : List String := ["object", "bone", "channel", "space", "rotation_mode"]

def propertyFields : List String := ["object", "path"]

def toJson : VariableSource → Json
  | .channel object bone c space reading =>
    .obj [
      ("type", .str "TRANSFORM_CHANNEL"),
      ("object", .str object),
      ("bone", .str bone),
      ("channel", ofChoice c),
      ("space", ofChoice space),
      ("rotation_mode", ofChoice reading)]
  | .property object path =>
    .obj [("type", .str "SINGLE_PROP"), ("object", .str object), ("path", ofPath path)]

def tagged? : Json → Option (String × Json)
  | .obj fields =>
    match fields.lookup "type" with
    | some (.str tag) => some (tag, .obj (fields.filter fun f => f.1 != "type"))
    | _ => none
  | .arr (.str tag :: items) => some (tag, .arr items)
  | _ => none

def channelOfJson? (j : Json) : Option VariableSource := do
  let fs ← j.record? channelFields
  let object ← required fs "object" text?
  let bone ← orElse fs "bone" text? ""
  let c ← required fs "channel" (choiceIn? Channel .afterTag)
  let space ← orElse fs "space" (choiceIn? Space .afterTag) .world
  let reading ← orElse fs "rotation_mode" (choiceIn? RotationReading .afterTag) .auto
  return .channel object bone c space reading

def propertyOfJson? (j : Json) : Option VariableSource := do
  let fs ← j.record? propertyFields
  let object ← required fs "object" text?
  let path ← required fs "path" path?
  return .property object path

def ofJson? (j : Json) : Option VariableSource :=
  match tagged? j with
  | none => none
  | some (tag, rest) =>
    if tag = "TRANSFORM_CHANNEL" then channelOfJson? rest
    else if tag = "SINGLE_PROP" then propertyOfJson? rest
    else none

end VariableSource

namespace Variable

def toJson (v : Variable) : Json := .obj [("name", .str v.name), ("source", v.source.toJson)]

def ofJson? (j : Json) : Option Variable := do
  let fs ← j.record? ["name", "source"]
  let name ← required fs "name" text?
  let source ← required fs "source" VariableSource.ofJson?
  return { name, source }

end Variable

namespace Driver

def toJson (d : Driver) : Json :=
  .obj [
    ("data_path", ofPath d.dataPath),
    ("expression", .str d.expression),
    ("variables", .arr (d.vars.map (·.toJson)))]

def ofJson? (j : Json) : Option Driver := do
  let fs ← j.record? ["data_path", "expression", "variables"]
  let dataPath ← required fs "data_path" path?
  let expression ← required fs "expression" text?
  let vars ← orElse fs "variables" (list? Variable.ofJson?) []
  return { dataPath, expression, vars }

end Driver

namespace Animation

def toJson (a : Animation) : Json :=
  .obj [("action", ofOptionalText a.action), ("drivers", .arr (a.drivers.map (·.toJson)))]

def ofJson? (j : Json) : Option Animation := do
  let fs ← j.record? ["action", "drivers"]
  let d : Animation := {}
  let action ← orElse fs "action" optionalText? d.action
  let drivers ← orElse fs "drivers" (list? Driver.ofJson?) d.drivers
  return { action, drivers }

end Animation

namespace Object

def fieldNames : List String := ["kind", "transform", "armature", "animation_data", "properties"]

def toJson (w : RealWriter) (o : Object) : Json :=
  .obj [
    ("kind", ofChoice o.kind),
    ("transform", o.transform.toJson w),
    ("armature", Json.ofOption (Armature.toJson w) o.armature),
    ("animation_data", Json.ofOption Animation.toJson o.animation),
    ("properties", ofTable (Value.toJson w) o.properties)]

def ofJson? (j : Json) : Option Object := do
  let fs ← j.record? fieldNames
  let d : Object := {}
  let kind ← orElse fs "kind" (choice? ObjectKind) d.kind
  let transform ← orElse fs "transform" Transform.ofJson? d.transform
  let armature ← orElse fs "armature" (optional? Armature.ofJson?) d.armature
  let animation ← orElse fs "animation_data" (optional? Animation.ofJson?) d.animation
  let properties ← orElse fs "properties" (table? Value.ofJson?) d.properties
  return { kind, transform, armature, animation, properties }

end Object

namespace Keyframe

def toJson (w : RealWriter) (k : Keyframe) : Json :=
  .obj [("frame", w k.frame), ("value", w k.value)]

def ofJson? (j : Json) : Option Keyframe := do
  let fs ← j.record? ["frame", "value"]
  let frame ← required fs "frame" scalar?
  let value ← required fs "value" scalar?
  return { frame, value }

end Keyframe

namespace Curve

def toJson (w : RealWriter) (c : Curve) : Json :=
  .obj [
    ("data_path", .str c.dataPath),
    ("array_index", Json.ofNat c.arrayIndex),
    ("group", ofOptionalText c.group),
    ("keyframes", .arr (c.keyframes.map (·.toJson w)))]

def ofJson? (j : Json) : Option Curve := do
  let fs ← j.record? ["data_path", "array_index", "group", "keyframes"]
  let d : Curve := {}
  let dataPath ← orElse fs "data_path" text? d.dataPath
  let arrayIndex ← orElse fs "array_index" index? d.arrayIndex
  let group ← orElse fs "group" optionalText? d.group
  let keyframes ← orElse fs "keyframes" (list? Keyframe.ofJson?) d.keyframes
  return { dataPath, arrayIndex, group, keyframes }

end Curve

namespace Action

def toJson (w : RealWriter) (a : Action) : Json :=
  .obj [
    ("id_root", Json.ofOption ofChoice a.root),
    ("use_fake_user", .bool a.keep),
    ("fcurves", .arr (a.curves.map (·.toJson w))),
    ("groups", Json.strings a.groups)]

def ofJson? (j : Json) : Option Action := do
  let fs ← j.record? ["id_root", "use_fake_user", "fcurves", "groups"]
  let d : Action := {}
  let root ← orElse fs "id_root" (optional? (choice? ObjectKind)) d.root
  let keep ← orElse fs "use_fake_user" flag? d.keep
  let curves ← orElse fs "fcurves" (list? Curve.ofJson?) d.curves
  let groups ← orElse fs "groups" (list? text?) d.groups
  return { root, keep, curves, groups }

end Action

namespace Scene

def fieldNames : List String := ["objects", "actions", "active_object", "mode", "tool_settings"]

def settingsToJson (autoKey : Bool) : Json := .obj [("use_keyframe_insert_auto", .bool autoKey)]

def settingsOfJson? (j : Json) : Option Bool := do
  let fs ← j.record? ["use_keyframe_insert_auto"]
  orElse fs "use_keyframe_insert_auto" flag? false

def toJson (w : RealWriter) (s : Scene) : Json :=
  .obj [
    ("objects", ofTable (Object.toJson w) s.objects),
    ("actions", ofTable (Action.toJson w) s.actions),
    ("active_object", ofOptionalText s.activeObject),
    ("mode", ofChoice s.mode),
    ("tool_settings", settingsToJson s.autoKey)]

def ofJson? (j : Json) : Option Scene := do
  let fs ← j.record? fieldNames
  let d : Scene := {}
  let objects ← orElse fs "objects" (table? Object.ofJson?) d.objects
  let actions ← orElse fs "actions" (table? Action.ofJson?) d.actions
  let activeObject ← orElse fs "active_object" optionalText? d.activeObject
  let mode ← orElse fs "mode" (choice? Mode) d.mode
  let autoKey ← orElse fs "tool_settings" settingsOfJson? d.autoKey
  return { objects, actions, activeObject, mode, autoKey }

end Scene

end PoseRig
