import PoseRig.Proofs.Document.Library
import PoseRig.Proofs.Number.Exact

/-!
# Documents reload

What is written of a scene, a library, a session or preferences is read as the same, as long as its
reals survive being written. Every record may lack fields that have their default value, also those
inside another one.
-/

set_option autoImplicit false

namespace PoseRig.Document

variable {α : Type}

/-- What is written is read as the same. -/
def Reloads (Storable : α → Prop) (write : α → Json) (read : Json → Option α) : Prop :=
  ∀ a, Storable a → read (write a) = some a

/-- What is written is read as the same without any of the fields that are written as those
of `d`. -/
def Spares (Storable : α → Prop) (write : α → Json) (read : Json → Option α) (d : α) : Prop :=
  ∀ a, Storable a → ∀ names : List String,
    (∀ name ∈ names, (write a).field? name = (write d).field? name) →
    read ((write a).without names) = some a

/-- Where no finite real is lost in writing, every document that can be stored is read back
from what is written of it. Every record is also read back without any of the fields that are
written as those of the default record, and so is a document in which any of the records inside
lack such fields. -/
theorem documents_reload (w : RealWriter) (hw : w.Lossless) :
    (Reloads (Scene.codec w).Storable (Scene.toJson w) Scene.ofJson? ∧
      Reloads (Library.codec w).Storable (Library.toJson w) Library.ofJson? ∧
      Reloads (Session.codec w).Storable (Session.toJson w) Session.ofJson? ∧
      Reloads (fun _ => True) Preferences.toJson Preferences.ofJson?) ∧
    (Spares (Scene.codec w).Storable (Scene.toJson w) Scene.ofJson? {} ∧
      Spares (Object.codec w).Storable (Object.toJson w) Object.ofJson? {} ∧
      Spares (Armature.codec w).Storable (Armature.toJson w) Armature.ofJson? {} ∧
      Spares (Bone.codec w).Storable (Bone.toJson w) Bone.ofJson? {} ∧
      Spares (Transform.codec w .atOnce).Storable (Transform.toJson w) Transform.ofJson? {} ∧
      Spares (Constraint.codec w).Storable (Constraint.toJson w) Constraint.ofJson? {} ∧
      Spares (Action.codec w).Storable (Action.toJson w) Action.ofJson? {} ∧
      Spares (Curve.codec w).Storable (Curve.toJson w) Curve.ofJson? {} ∧
      Spares Animation.codec.Storable Animation.toJson Animation.ofJson? {} ∧
      Spares (Library.codec w).Storable (Library.toJson w) Library.ofJson? {} ∧
      Spares (Pose.codec w).Storable (Pose.toJson w) Pose.ofJson? {} ∧
      Spares (BoneEntry.codec w).Storable (BoneEntry.toJson w) BoneEntry.ofJson? {} ∧
      Spares (fun _ => True) Preferences.toJson Preferences.ofJson? {} ∧
      (∀ turn, Spares (Snapshot.codec w turn).Storable (Snapshot.toJson w)
        (Snapshot.ofJsonIn? turn) {}) ∧
      Spares (fun _ => True) Scene.settingsToJson Scene.settingsOfJson? false) ∧
    (∀ s j, (Scene.codec w).Stands s j → Scene.ofJson? j = some s) ∧
    (∀ l j, (Library.codec w).Stands l j → Library.ofJson? j = some l) ∧
    (∀ e j, (Session.codec w).Stands e j → Session.ofJson? j = some e) ∧
    (∀ p j, Preferences.codec.Stands p j → Preferences.ofJson? j = some p) := by
  refine ⟨⟨?_, ?_, ?_, ?_⟩, ⟨?_, ?_, ?_, ?_, ?_, ?_, ?_, ?_, ?_, ?_, ?_, ?_, ?_, ?_, ?_⟩,
    ?_, ?_, ?_, ?_⟩
  · exact fun s hs => (Scene.lenient_codec hw).lawful.read_write hs
  · exact fun l hl => (Library.lenient_codec hw).lawful.read_write hl
  · exact fun e he => (Session.lawful_codec hw).read_write he
  · exact fun p _ => Preferences.lenient_codec.lawful.read_write p.storable
  · exact (Scene.lenient_codec hw).read_without
  · exact (Object.lenient_codec hw).read_without
  · exact (Armature.lenient_codec hw).read_without
  · exact (Bone.lenient_codec hw).read_without
  · exact (Transform.lenient_codec hw .atOnce).read_without
  · exact (Constraint.lenient_codec hw).read_without
  · exact (Action.lenient_codec hw).read_without
  · exact (Curve.lenient_codec hw).read_without
  · exact Animation.lenient_codec.read_without
  · exact (Library.lenient_codec hw).read_without
  · exact (Pose.lenient_codec hw).read_without
  · exact (BoneEntry.lenient_codec hw).read_without
  · exact fun p _ => Preferences.lenient_codec.read_without p p.storable
  · exact fun turn => (Snapshot.lenient_codec hw turn).read_without
  · exact fun autoKey _ => Scene.lenient_settingsCodec.read_without autoKey
      (Scene.storable_settings autoKey)
  · exact (Scene.lenient_codec hw).lawful.read_of_stands
  · exact (Library.lenient_codec hw).lawful.read_of_stands
  · exact (Session.lawful_codec hw).read_of_stands
  · exact Preferences.lenient_codec.lawful.read_of_stands

def exactWriter : RealWriter := fun x => .real x.numeral

theorem exactWriter_lossless : exactWriter.Lossless := by
  intro x hx
  show some x.numeral.toScalarViaDouble = some x
  rw [Scalar.toScalarViaDouble_numeral hx]

def jaw : Bone where
  head := ⟨0, 1, 0⟩
  constraints := [{ name := "AP-Open" }]
  properties :=
    .ofList [("limits", .record [("low", .float 0), ("signs", .list [.int 1, .text "-"])])]

def jawDriver : Driver :=
  ⟨.evalTime "Jaw" "AP-Open", "influence", [⟨"influence", .property "Rig" (.influence "Open")⟩]⟩

def jawPose : Pose := { name := "Open", space := .world, bones := [{ bone := "Jaw" }] }

def jawScene : Scene where
  objects := .ofList [("Rig",
    { kind := .armature
      armature := some { bones := .ofList [("Jaw", jaw)] }
      animation := some { drivers := [jawDriver] } })]

theorem storable_jawDriver : jawDriver.Storable := by
  refine ⟨Path.wellFormed_evalTime "Jaw" "AP-Open", ?_⟩
  simpa [jawDriver, Variable.Storable, VariableSource.Storable]
    using Path.wellFormed_influence "Open"

theorem storable_jaw : (Bone.codec exactWriter).Storable jaw := by
  have htransform := (Transform.lenient_codec exactWriter_lossless .atOnce).default
  have hconstraint : (Constraint.codec exactWriter).Storable { name := "AP-Open" } := by
    simp [Constraint.codec, Bounds.frame]
  have hlimits :
      (Value.record [("low", .float 0), ("signs", .list [.int 1, .text "-"])]).Storable := by
    simp [Value.Storable, Value.StorableMembers, Value.StorableItems, Bounds.long, Entries.names]
  simp [Bone.codec, jaw, htransform, hconstraint, hlimits]

theorem storable_jawScene : (Scene.codec exactWriter).Storable jawScene := by
  have htransform := (Transform.lenient_codec exactWriter_lossless .atOnce).default
  have harmature : (Armature.codec exactWriter).Storable { bones := .ofList [("Jaw", jaw)] } := by
    simp [Armature.codec, storable_jaw]
  have hanimation : Animation.codec.Storable { drivers := [jawDriver] } := by
    simp [Animation.codec, storable_jawDriver]
  simp [Scene.codec, Object.codec, jawScene, htransform, harmature, hanimation,
    Scene.storable_settings]

theorem storable_jawPose : (Pose.codec exactWriter).Storable jawPose := by
  have hentry : (BoneEntry.codec exactWriter).Storable { bone := "Jaw" } := by
    simp [BoneEntry.codec]
  simp [Pose.codec, jawPose, hentry, Bounds.frame]

def jawShort : Json :=
  .obj [("name", .str "Open"), ("space", .str "WORLD_SPACE"),
    ("bones", .arr [.obj [("bone", .str "Jaw")]])]

theorem stands_jawShort : (Pose.codec exactWriter).Stands jawPose jawShort := by
  have hspace : ofChoice Space.world = .str "WORLD_SPACE" := rfl
  have hentry :
      (BoneEntry.codec exactWriter).Stands { bone := "Jaw" } (.obj [("bone", .str "Jaw")]) := by
    refine ⟨_, rfl, by simp, ?_⟩
    simp [Field.Held, List.lookup, Codec.text, Codec.plain]
  refine ⟨_, rfl, by simp, ?_⟩
  simp [Field.Held, List.lookup, Codec.text, Codec.choice, Codec.list, Codec.plain, jawPose,
    hspace, hentry]

theorem stands_jawLibrary :
    (Library.codec exactWriter).Stands { poses := [jawPose] }
      (.obj [("poses", .arr [jawShort])]) := by
  refine ⟨_, rfl, by simp, ?_⟩
  simp [Field.Held, List.lookup, Codec.list, stands_jawShort]

theorem documents_reload_jaw :
    exactWriter.Lossless ∧ exactWriter 0 = .real ⟨false, 0, -1⟩ ∧
    exactWriter 1 = .real ⟨false, 10, -1⟩ ∧
    (Scene.codec exactWriter).Storable jawScene ∧
    Scene.ofJson? (jawScene.toJson exactWriter) = some jawScene ∧
    (Pose.codec exactWriter).Storable jawPose ∧
    Pose.ofJson? ((jawPose.toJson exactWriter).without ["action", "mix", "transform_max"]) =
      some jawPose ∧
    Library.ofJson? (.obj [("poses", .arr [jawShort])]) = some { poses := [jawPose] } := by
  obtain ⟨⟨hscene, -⟩, ⟨-, -, -, -, -, -, -, -, -, -, hpose, -⟩, -, hlibrary, -⟩ :=
    documents_reload exactWriter exactWriter_lossless
  refine ⟨exactWriter_lossless, ?_, ?_, storable_jawScene, hscene _ storable_jawScene,
    storable_jawPose, ?_, hlibrary _ _ stands_jawLibrary⟩
  · exact congrArg Json.real (by decide +kernel)
  · exact congrArg Json.real (by decide +kernel)
  · apply hpose jawPose storable_jawPose
    simp only [List.forall_mem_cons]
    exact ⟨rfl, rfl, rfl, nofun⟩

end PoseRig.Document
