import PoseRig.Proofs.Document.Scene

/-!
# Codecs of libraries, preferences and sessions

Records like those of a scene. A session is stored under a tag, so what it holds is
read after the tag.
-/

set_option autoImplicit false

namespace PoseRig

open Document Json

variable {w : RealWriter}

namespace BoneEntry

def codec (w : RealWriter) : Codec BoneEntry :=
  .record {} [⟨"bone", (·.bone), .text⟩, ⟨"influence", (·.influence), .real w⟩] ofJson?

@[simp] theorem read_codec (w : RealWriter) : (codec w).read = ofJson? := rfl

theorem lenient_codec (hw : w.Lossless) : (codec w).Lenient {} := by
  apply Codec.lenient_record
  case hnames => simp
  case hfields =>
    simp only [List.forall_mem_cons]
    exact ⟨Codec.lawful_text, Codec.lawful_real hw, nofun⟩
  case hdefault => simp
  case hread =>
    intro e fs h
    simp_all [ofJson?, record?]

end BoneEntry

namespace Pose

def codec (w : RealWriter) : Codec Pose :=
  .record {}
    [⟨"name", (·.name), .text⟩,
      ⟨"build", (·.build), .flag⟩,
      ⟨"type", (·.kind), .choice PoseKind .atOnce⟩,
      ⟨"target_type", (·.targetKind), .choice TargetKind .atOnce⟩,
      ⟨"target", (·.target), .optionalText⟩,
      ⟨"bone", (·.bone), .text⟩,
      ⟨"data_path", (·.dataPath), .text⟩,
      ⟨"channel", (·.channel), .choice Channel .atOnce⟩,
      ⟨"space", (·.space), .choice Space .atOnce⟩,
      ⟨"rot_mode", (·.reading), .choice RotationReading .atOnce⟩,
      ⟨"transform_min", (·.low), .real w⟩,
      ⟨"transform_max", (·.high), .real w⟩,
      ⟨"corr_pose_a", (·.partA), .text⟩,
      ⟨"corr_pose_b", (·.partB), .text⟩,
      ⟨"action", (·.action), .optionalText⟩,
      ⟨"start_frame", (·.startFrame), .frame⟩,
      ⟨"end_frame", (·.endFrame), .frame⟩,
      ⟨"mix", (·.mix), .choice Mix .atOnce⟩,
      ⟨"influence", (·.influence), .real w⟩,
      ⟨"bones", (·.bones), (BoneEntry.codec w).list⟩]
    ofJson?

@[simp] theorem read_codec (w : RealWriter) : (codec w).read = ofJson? := rfl

theorem lenient_codec (hw : w.Lossless) : (codec w).Lenient {} := by
  apply Codec.lenient_record
  case hnames => simp
  case hfields =>
    simp only [List.forall_mem_cons]
    exact ⟨Codec.lawful_text, Codec.lawful_flag, Codec.lawful_choice _ _, Codec.lawful_choice _ _,
      Codec.lawful_optionalText, Codec.lawful_text, Codec.lawful_text, Codec.lawful_choice _ _,
      Codec.lawful_choice _ _, Codec.lawful_choice _ _, Codec.lawful_real hw, Codec.lawful_real hw,
      Codec.lawful_text, Codec.lawful_text, Codec.lawful_optionalText, Codec.lawful_frame,
      Codec.lawful_frame, Codec.lawful_choice _ _, Codec.lawful_real hw,
      Codec.lawful_list (BoneEntry.lenient_codec hw).lawful, nofun⟩
  case hdefault => simp [Bounds.frame]
  case hread =>
    intro p fs h
    simp only [List.forall_mem_cons, Codec.read_text, Codec.read_flag, Codec.read_choice,
      Codec.read_optionalText, Codec.read_real, Codec.read_frame, Codec.read_list,
        BoneEntry.read_codec] at h
    obtain ⟨hname, hbuild, hkind, htargetKind, htarget, hbone, hdataPath, hchannel, hspace,
      hreading, hlow, hhigh, hpartA, hpartB, haction, hstart, hend, hmix, hinfluence,
      hbones, -⟩ := h
    unfold ofJson?
    -- too many fields in a row for the simplifier
    exact bind_eq_some rfl <| bind_eq_some hname <| bind_eq_some hbuild <| bind_eq_some hkind <|
      bind_eq_some htargetKind <| bind_eq_some htarget <| bind_eq_some hbone <|
        bind_eq_some hdataPath <|
      bind_eq_some hchannel <| bind_eq_some hspace <| bind_eq_some hreading <| bind_eq_some hlow <|
      bind_eq_some hhigh <| bind_eq_some hpartA <| bind_eq_some hpartB <| bind_eq_some haction <|
      bind_eq_some hstart <| bind_eq_some hend <| bind_eq_some hmix <| bind_eq_some hinfluence <|
      bind_eq_some hbones rfl

end Pose

namespace Library

def codec (w : RealWriter) : Codec Library :=
  .record {}
    [⟨"poses", (·.poses), (Pose.codec w).list⟩,
      ⟨"index", (·.index), .index⟩,
      ⟨"bones_index", (·.bonesIndex), .index⟩]
    ofJson?

theorem lenient_codec (hw : w.Lossless) : (codec w).Lenient {} := by
  apply Codec.lenient_record
  case hnames => simp
  case hfields =>
    simp only [List.forall_mem_cons]
    exact ⟨Codec.lawful_list (Pose.lenient_codec hw).lawful, Codec.lawful_index,
      Codec.lawful_index, nofun⟩
  case hdefault => simp [Bounds.index]
  case hread =>
    intro l fs h
    simp_all [ofJson?, record?]

end Library

namespace Preferences

def codec : Codec Preferences :=
  .record {}
    [⟨"constraint_prefix", (·.constraintPrefix), .text⟩,
      ⟨"left_suffix", (·.leftSuffix), .text⟩,
      ⟨"right_suffix", (·.rightSuffix), .text⟩,
      ⟨"pose_prefix", (·.posePrefix), .text⟩,
      ⟨"combo_prefix", (·.comboPrefix), .text⟩,
      ⟨"default_name", (·.defaultName), .text⟩,
      ⟨"temp_marker", (·.tempMarker), .text⟩,
      ⟨"blend_mode", (·.blendMode), .choice BlendMode .atOnce⟩]
    ofJson?

theorem lenient_codec : codec.Lenient {} := by
  apply Codec.lenient_record
  case hnames => simp
  case hfields =>
    simp only [List.forall_mem_cons]
    exact ⟨Codec.lawful_text, Codec.lawful_text, Codec.lawful_text, Codec.lawful_text,
      Codec.lawful_text, Codec.lawful_text, Codec.lawful_text, Codec.lawful_choice _ _, nofun⟩
  case hdefault => simp
  case hread =>
    intro p fs h
    simp_all [ofJson?, record?, choice?]

theorem storable (p : Preferences) : codec.Storable p := by
  simp [codec]

end Preferences

namespace Snapshot

def codec (w : RealWriter) (turn : Turn) : Codec Snapshot :=
  .record {}
    [⟨"pose", (·.pose), .text⟩,
      ⟨"active_object", (·.activeObject), .optionalText⟩,
      ⟨"active_action", (·.activeAction), .optionalText⟩,
      ⟨"selected_bones", (·.selectedBones), Codec.text.list⟩,
      ⟨"active_bone", (·.activeBone), .optionalText⟩,
      ⟨"bone_transforms", (·.transforms), (Transform.codec w turn).table⟩,
      ⟨"autokey", (·.autoKey), .flag⟩]
    (ofJsonIn? turn)

@[simp] theorem read_codec (w : RealWriter) (turn : Turn) : (codec w turn).read = ofJsonIn? turn :=
  rfl

theorem lenient_codec (hw : w.Lossless) (turn : Turn) : (codec w turn).Lenient {} := by
  apply Codec.lenient_record
  case hnames => simp
  case hfields =>
    simp only [List.forall_mem_cons]
    exact ⟨Codec.lawful_text, Codec.lawful_optionalText, Codec.lawful_optionalText,
      Codec.lawful_list Codec.lawful_text, Codec.lawful_optionalText,
      Codec.lawful_table (Transform.lenient_codec hw turn).lawful, Codec.lawful_flag, nofun⟩
  case hdefault => simp
  case hread =>
    intro s fs h
    simp_all [ofJsonIn?, record?]

end Snapshot

namespace Session

def codec (w : RealWriter) : Codec Session where
  Storable
    | .idle => True
    | .editing s => (Snapshot.codec w .afterTag).Storable s
  write := toJson w
  Stands
    | .idle, j => j = toJson w .idle
    | .editing s, j => ∃ c, (Snapshot.codec w .afterTag).Stands s c ∧
      j = .obj [("state", ofChoice SessionState.editing), ("snapshot", c)]
  read := ofJson?

theorem lawful_codec (hw : w.Lossless) : (codec w).Lawful where
  stands_write
    | .idle, _ => rfl
    | .editing s, hs => ⟨_, (Snapshot.lenient_codec hw .afterTag).lawful.stands_write s hs, rfl⟩
  read_of_stands
    | .idle, j => by
      rintro rfl
      rfl
    | .editing s, j => by
      rintro ⟨c, hc, rfl⟩
      have hread : Snapshot.ofJsonIn? .afterTag c = some s :=
        (Snapshot.lenient_codec hw .afterTag).lawful.read_of_stands s c hc
      show (Snapshot.ofJsonIn? .afterTag c).map Session.editing = some (.editing s)
      rw [hread, Option.map_some]

end Session

end PoseRig
