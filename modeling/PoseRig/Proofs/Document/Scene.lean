import PoseRig.Proofs.Document.Value

/-!
# Codecs of scenes

Each part of a scene as a record of named fields. What is read from a record takes each field from
its name or the default, so the codec of a record is lawful once those of its fields are.
-/

set_option autoImplicit false

namespace PoseRig

open Document Json

variable {w : RealWriter} {turn : Turn}

def VariableSource.Storable : VariableSource → Prop
  | .channel .. => True
  | .property _ path => path.WellFormed

theorem VariableSource.ofJson?_toJson (s : VariableSource) (h : s.Storable) :
    ofJson? s.toJson = some s := by
  cases s with
  | channel object bone c space reading =>
    have hchannel : choiceIn? Channel .afterTag (ofChoice c) = some c := Legible.ofLabel?_label c
    have hspace : choiceIn? Space .afterTag (ofChoice space) = some space :=
      Legible.ofLabel?_label space
    have hreading : choiceIn? RotationReading .afterTag (ofChoice reading) = some reading :=
      Legible.ofLabel?_label reading
    simp [toJson, ofJson?, tagged?, channelOfJson?, record?, required, orElse,
      List.lookup_cons, text?, hchannel, hspace, hreading]
  | property object path =>
    have hpath : path? (ofPath path) = some path := Codec.lawful_path.read_write h
    simp [toJson, ofJson?, tagged?, propertyOfJson?, record?, required,
      List.lookup_cons, text?, hpath]

namespace Variable

def Storable (v : Variable) : Prop := v.source.Storable

theorem ofJson?_toJson (v : Variable) (h : v.Storable) : ofJson? v.toJson = some v := by
  simp [toJson, ofJson?, record?, required, List.lookup_cons, text?, v.source.ofJson?_toJson h]

def codec : Codec Variable := .plain Storable toJson ofJson?

theorem lawful_codec : codec.Lawful := Codec.lawful_plain ofJson?_toJson

end Variable

namespace Driver

structure Storable (d : Driver) : Prop where
  dataPath : d.dataPath.WellFormed
  vars : ∀ v ∈ d.vars, v.Storable

theorem ofJson?_toJson (d : Driver) (h : d.Storable) : ofJson? d.toJson = some d := by
  have hpath : path? (ofPath d.dataPath) = some d.dataPath :=
    Codec.lawful_path.read_write h.dataPath
  have hvars : list? Variable.ofJson? (.arr (d.vars.map Variable.toJson)) = some d.vars :=
    (Codec.lawful_list Variable.lawful_codec).read_write h.vars
  simp [toJson, ofJson?, record?, required, orElse, List.lookup_cons, text?, hpath, hvars]

def codec : Codec Driver := .plain Storable toJson ofJson?

theorem lawful_codec : codec.Lawful := Codec.lawful_plain ofJson?_toJson

end Driver

@[simp] theorem Driver.storable_codec (d : Driver) : Driver.codec.Storable d ↔ d.Storable := Iff.rfl

@[simp] theorem Driver.read_codec : Driver.codec.read = Driver.ofJson? := rfl

namespace Animation

def codec : Codec Animation :=
  .record {} [⟨"action", (·.action), .optionalText⟩, ⟨"drivers", (·.drivers), Driver.codec.list⟩]
    ofJson?

@[simp] theorem read_codec : codec.read = ofJson? := rfl

theorem lenient_codec : codec.Lenient {} := by
  apply Codec.lenient_record
  case hnames => simp
  case hfields =>
    simp only [List.forall_mem_cons]
    exact ⟨Codec.lawful_optionalText, Codec.lawful_list Driver.lawful_codec, nofun⟩
  case hdefault => simp
  case hread =>
    intro a fs h
    simp_all [ofJson?, record?]

end Animation

namespace Transform

def codec (w : RealWriter) (turn : Turn) : Codec Transform :=
  .record {}
    [⟨"location", (·.location), .vec w⟩,
      ⟨"rotation_euler", (·.rotationEuler), .vec w⟩,
      ⟨"rotation_quaternion", (·.rotationQuaternion), .quat w⟩,
      ⟨"rotation_mode", (·.rotationMode), .choice RotationMode turn⟩,
      ⟨"scale", (·.scale), .vec w⟩]
    (ofJsonIn? turn)

@[simp] theorem read_codec (w : RealWriter) (turn : Turn) : (codec w turn).read = ofJsonIn? turn :=
  rfl

@[simp] theorem ofJsonIn?_atOnce : ofJsonIn? .atOnce = ofJson? := rfl

theorem lenient_codec (hw : w.Lossless) (turn : Turn) : (codec w turn).Lenient {} := by
  apply Codec.lenient_record
  case hnames => simp
  case hfields =>
    simp only [List.forall_mem_cons]
    exact ⟨Codec.lawful_vec hw, Codec.lawful_vec hw, Codec.lawful_quat hw,
      Codec.lawful_choice _ turn, Codec.lawful_vec hw, nofun⟩
  case hdefault => simp
  case hread =>
    intro t fs h
    simp_all [ofJsonIn?, record?]

end Transform

namespace Constraint

def codec (w : RealWriter) : Codec Constraint :=
  .record {}
    [⟨"name", (·.name), .text⟩,
      ⟨"enabled", (·.enabled), .flag⟩,
      ⟨"action", (·.action), .optionalText⟩,
      ⟨"frame_start", (·.frameStart), .frame⟩,
      ⟨"frame_end", (·.frameEnd), .frame⟩,
      ⟨"mix_mode", (·.mix), .choice Mix .atOnce⟩,
      ⟨"influence", (·.influence), .real w⟩,
      ⟨"use_eval_time", (·.useEvalTime), .flag⟩,
      ⟨"eval_time", (·.evalTime), .real w⟩]
    ofJson?

@[simp] theorem read_codec (w : RealWriter) : (codec w).read = ofJson? := rfl

theorem lenient_codec (hw : w.Lossless) : (codec w).Lenient {} := by
  apply Codec.lenient_record
  case hnames => simp
  case hfields =>
    simp only [List.forall_mem_cons]
    exact ⟨Codec.lawful_text, Codec.lawful_flag, Codec.lawful_optionalText, Codec.lawful_frame,
      Codec.lawful_frame, Codec.lawful_choice _ _, Codec.lawful_real hw, Codec.lawful_flag,
      Codec.lawful_real hw, nofun⟩
  case hdefault => simp [Bounds.frame]
  case hread =>
    intro c fs h
    simp_all [ofJson?, record?, choice?]

end Constraint

namespace Bone

def codec (w : RealWriter) : Codec Bone :=
  .record {}
    [⟨"parent", (·.parent), .optionalText⟩,
      ⟨"head", (·.head), .vec w⟩,
      ⟨"transform", (·.transform), Transform.codec w .atOnce⟩,
      ⟨"select", (·.select), .flag⟩,
      ⟨"constraints", (·.constraints), (Constraint.codec w).list⟩,
      ⟨"properties", (·.properties), (Codec.value w).table⟩]
    ofJson?

@[simp] theorem read_codec (w : RealWriter) : (codec w).read = ofJson? := rfl

theorem lenient_codec (hw : w.Lossless) : (codec w).Lenient {} := by
  apply Codec.lenient_record
  case hnames => simp
  case hfields =>
    simp only [List.forall_mem_cons]
    exact ⟨Codec.lawful_optionalText, Codec.lawful_vec hw, (Transform.lenient_codec hw _).lawful,
      Codec.lawful_flag, Codec.lawful_list (Constraint.lenient_codec hw).lawful,
      Codec.lawful_table (Codec.lawful_value hw), nofun⟩
  case hdefault => simp [(Transform.lenient_codec hw .atOnce).default]
  case hread =>
    intro b fs h
    simp_all [ofJson?, record?]

end Bone

namespace Armature

def codec (w : RealWriter) : Codec Armature :=
  .record {}
    [⟨"bones", (·.bones), (Bone.codec w).table⟩, ⟨"active_bone", (·.activeBone), .optionalText⟩]
    ofJson?

@[simp] theorem read_codec (w : RealWriter) : (codec w).read = ofJson? := rfl

theorem lenient_codec (hw : w.Lossless) : (codec w).Lenient {} := by
  apply Codec.lenient_record
  case hnames => simp
  case hfields =>
    simp only [List.forall_mem_cons]
    exact ⟨Codec.lawful_table (Bone.lenient_codec hw).lawful, Codec.lawful_optionalText, nofun⟩
  case hdefault => simp
  case hread =>
    intro a fs h
    simp_all [ofJson?, record?]

end Armature

namespace Object

def codec (w : RealWriter) : Codec Object :=
  .record {}
    [⟨"kind", (·.kind), .choice ObjectKind .atOnce⟩,
      ⟨"transform", (·.transform), Transform.codec w .atOnce⟩,
      ⟨"armature", (·.armature), (Armature.codec w).optional⟩,
      ⟨"animation_data", (·.animation), Animation.codec.optional⟩,
      ⟨"properties", (·.properties), (Codec.value w).table⟩]
    ofJson?

@[simp] theorem read_codec (w : RealWriter) : (codec w).read = ofJson? := rfl

theorem lenient_codec (hw : w.Lossless) : (codec w).Lenient {} := by
  apply Codec.lenient_record
  case hnames => simp
  case hfields =>
    simp only [List.forall_mem_cons]
    exact ⟨Codec.lawful_choice _ _, (Transform.lenient_codec hw _).lawful,
      Codec.lawful_optional (Armature.lenient_codec hw).lawful nofun,
      Codec.lawful_optional Animation.lenient_codec.lawful nofun,
      Codec.lawful_table (Codec.lawful_value hw), nofun⟩
  case hdefault => simp [(Transform.lenient_codec hw .atOnce).default]
  case hread =>
    intro o fs h
    simp_all [ofJson?, record?, choice?]

end Object

namespace Keyframe

structure Storable (k : Keyframe) : Prop where
  frame : k.frame.isFinite = true
  value : k.value.isFinite = true

def codec (w : RealWriter) : Codec Keyframe := .plain Storable (toJson w) ofJson?

@[simp] theorem read_codec (w : RealWriter) : (codec w).read = ofJson? := rfl

theorem lawful_codec (hw : w.Lossless) : (codec w).Lawful := by
  apply Codec.lawful_plain
  intro k hk
  simp [toJson, ofJson?, record?, required, List.lookup_cons, hw _ hk.frame, hw _ hk.value]

end Keyframe

namespace Curve

def codec (w : RealWriter) : Codec Curve :=
  .record {}
    [⟨"data_path", (·.dataPath), .text⟩,
      ⟨"array_index", (·.arrayIndex), .index⟩,
      ⟨"group", (·.group), .optionalText⟩,
      ⟨"keyframes", (·.keyframes), (Keyframe.codec w).list⟩]
    ofJson?

@[simp] theorem read_codec (w : RealWriter) : (codec w).read = ofJson? := rfl

theorem lenient_codec (hw : w.Lossless) : (codec w).Lenient {} := by
  apply Codec.lenient_record
  case hnames => simp
  case hfields =>
    simp only [List.forall_mem_cons]
    exact ⟨Codec.lawful_text, Codec.lawful_index, Codec.lawful_optionalText,
      Codec.lawful_list (Keyframe.lawful_codec hw), nofun⟩
  case hdefault => simp [Bounds.index]
  case hread =>
    intro c fs h
    simp_all [ofJson?, record?]

end Curve

namespace Action

def codec (w : RealWriter) : Codec Action :=
  .record {}
    [⟨"id_root", (·.root), (Codec.choice ObjectKind .atOnce).optional⟩,
      ⟨"use_fake_user", (·.keep), .flag⟩,
      ⟨"fcurves", (·.curves), (Curve.codec w).list⟩,
      ⟨"groups", (·.groups), Codec.text.list⟩]
    ofJson?

@[simp] theorem read_codec (w : RealWriter) : (codec w).read = ofJson? := rfl

theorem lenient_codec (hw : w.Lossless) : (codec w).Lenient {} := by
  apply Codec.lenient_record
  case hnames => simp
  case hfields =>
    simp only [List.forall_mem_cons]
    exact ⟨Codec.lawful_optional (Codec.lawful_choice _ _) nofun, Codec.lawful_flag,
      Codec.lawful_list (Curve.lenient_codec hw).lawful, Codec.lawful_list Codec.lawful_text, nofun⟩
  case hdefault => simp
  case hread =>
    intro a fs h
    simp_all [ofJson?, record?, choice?]

end Action

namespace Scene

def settingsCodec : Codec Bool :=
  .record false [⟨"use_keyframe_insert_auto", id, .flag⟩] settingsOfJson?

@[simp] theorem read_settingsCodec : settingsCodec.read = settingsOfJson? := rfl

theorem lenient_settingsCodec : settingsCodec.Lenient false := by
  apply Codec.lenient_record
  case hnames => simp
  case hfields =>
    simp only [List.forall_mem_cons]
    exact ⟨Codec.lawful_flag, nofun⟩
  case hdefault => simp
  case hread =>
    intro autoKey fs h
    simp_all [settingsOfJson?, record?]

theorem storable_settings (autoKey : Bool) : settingsCodec.Storable autoKey := by
  simp [settingsCodec]

def codec (w : RealWriter) : Codec Scene :=
  .record {}
    [⟨"objects", (·.objects), (Object.codec w).table⟩,
      ⟨"actions", (·.actions), (Action.codec w).table⟩,
      ⟨"active_object", (·.activeObject), .optionalText⟩,
      ⟨"mode", (·.mode), .choice Mode .atOnce⟩,
      ⟨"tool_settings", (·.autoKey), settingsCodec⟩]
    ofJson?

theorem lenient_codec (hw : w.Lossless) : (codec w).Lenient {} := by
  apply Codec.lenient_record
  case hnames => simp
  case hfields =>
    simp only [List.forall_mem_cons]
    exact ⟨Codec.lawful_table (Object.lenient_codec hw).lawful,
      Codec.lawful_table (Action.lenient_codec hw).lawful, Codec.lawful_optionalText,
      Codec.lawful_choice _ _, lenient_settingsCodec.lawful, nofun⟩
  case hdefault => simp [lenient_settingsCodec.default]
  case hread =>
    intro s fs h
    simp_all [ofJson?, record?, choice?]

end Scene

end PoseRig
