import PoseRig.Document.Value
import PoseRig.Pose.Library

/-!
# Stored libraries and preferences
-/

set_option autoImplicit false

namespace PoseRig

open Document Json

namespace BoneEntry

def toJson (w : RealWriter) (e : BoneEntry) : Json :=
  .obj [("bone", .str e.bone), ("influence", w e.influence)]

def ofJson? (j : Json) : Option BoneEntry := do
  let fs ← j.record? ["bone", "influence"]
  let d : BoneEntry := {}
  let bone ← orElse fs "bone" text? d.bone
  let influence ← orElse fs "influence" scalar? d.influence
  return { bone, influence }

end BoneEntry

namespace Pose

def fieldNames : List String :=
  ["name", "build", "type", "target_type", "target", "bone", "data_path", "channel", "space",
    "rot_mode", "transform_min", "transform_max", "corr_pose_a", "corr_pose_b", "action",
    "start_frame", "end_frame", "mix", "influence", "bones"]

def toJson (w : RealWriter) (p : Pose) : Json :=
  .obj [
    ("name", .str p.name),
    ("build", .bool p.build),
    ("type", ofChoice p.kind),
    ("target_type", ofChoice p.targetKind),
    ("target", ofOptionalText p.target),
    ("bone", .str p.bone),
    ("data_path", .str p.dataPath),
    ("channel", ofChoice p.channel),
    ("space", ofChoice p.space),
    ("rot_mode", ofChoice p.reading),
    ("transform_min", w p.low),
    ("transform_max", w p.high),
    ("corr_pose_a", .str p.partA),
    ("corr_pose_b", .str p.partB),
    ("action", ofOptionalText p.action),
    ("start_frame", .int p.startFrame),
    ("end_frame", .int p.endFrame),
    ("mix", ofChoice p.mix),
    ("influence", w p.influence),
    ("bones", .arr (p.bones.map (·.toJson w)))]

def ofJson? (j : Json) : Option Pose := do
  let fs ← j.record? fieldNames
  let d : Pose := {}
  let name ← orElse fs "name" text? d.name
  let build ← orElse fs "build" flag? d.build
  let kind ← orElse fs "type" (choice? PoseKind) d.kind
  let targetKind ← orElse fs "target_type" (choice? TargetKind) d.targetKind
  let target ← orElse fs "target" optionalText? d.target
  let bone ← orElse fs "bone" text? d.bone
  let dataPath ← orElse fs "data_path" text? d.dataPath
  let channel ← orElse fs "channel" (choice? Channel) d.channel
  let space ← orElse fs "space" (choice? Space) d.space
  let reading ← orElse fs "rot_mode" (choice? RotationReading) d.reading
  let low ← orElse fs "transform_min" scalar? d.low
  let high ← orElse fs "transform_max" scalar? d.high
  let partA ← orElse fs "corr_pose_a" text? d.partA
  let partB ← orElse fs "corr_pose_b" text? d.partB
  let action ← orElse fs "action" optionalText? d.action
  let startFrame ← orElse fs "start_frame" frame? d.startFrame
  let endFrame ← orElse fs "end_frame" frame? d.endFrame
  let mix ← orElse fs "mix" (choice? Mix) d.mix
  let influence ← orElse fs "influence" scalar? d.influence
  let bones ← orElse fs "bones" (list? BoneEntry.ofJson?) d.bones
  return {
    name, build, kind, targetKind, target, bone, dataPath, channel, space, reading, low, high,
    partA, partB, action, startFrame, endFrame, mix, influence, bones }

end Pose

namespace Library

def toJson (w : RealWriter) (l : Library) : Json :=
  .obj [
    ("poses", .arr (l.poses.map (·.toJson w))),
    ("index", Json.ofNat l.index),
    ("bones_index", Json.ofNat l.bonesIndex)]

def ofJson? (j : Json) : Option Library := do
  let fs ← j.record? ["poses", "index", "bones_index"]
  let d : Library := {}
  let poses ← orElse fs "poses" (list? Pose.ofJson?) d.poses
  let index ← orElse fs "index" index? d.index
  let bonesIndex ← orElse fs "bones_index" index? d.bonesIndex
  return { poses, index, bonesIndex }

end Library

namespace Preferences

def fieldNames : List String :=
  ["constraint_prefix", "left_suffix", "right_suffix", "pose_prefix", "combo_prefix",
    "default_name", "temp_marker", "blend_mode"]

def toJson (p : Preferences) : Json :=
  .obj [
    ("constraint_prefix", .str p.constraintPrefix),
    ("left_suffix", .str p.leftSuffix),
    ("right_suffix", .str p.rightSuffix),
    ("pose_prefix", .str p.posePrefix),
    ("combo_prefix", .str p.comboPrefix),
    ("default_name", .str p.defaultName),
    ("temp_marker", .str p.tempMarker),
    ("blend_mode", ofChoice p.blendMode)]

def ofJson? (j : Json) : Option Preferences := do
  let fs ← j.record? fieldNames
  let d : Preferences := {}
  let constraintPrefix ← orElse fs "constraint_prefix" text? d.constraintPrefix
  let leftSuffix ← orElse fs "left_suffix" text? d.leftSuffix
  let rightSuffix ← orElse fs "right_suffix" text? d.rightSuffix
  let posePrefix ← orElse fs "pose_prefix" text? d.posePrefix
  let comboPrefix ← orElse fs "combo_prefix" text? d.comboPrefix
  let defaultName ← orElse fs "default_name" text? d.defaultName
  let tempMarker ← orElse fs "temp_marker" text? d.tempMarker
  let blendMode ← orElse fs "blend_mode" (choice? BlendMode) d.blendMode
  return {
    constraintPrefix, leftSuffix, rightSuffix, posePrefix, comboPrefix, defaultName, tempMarker,
    blendMode }

end Preferences

end PoseRig
