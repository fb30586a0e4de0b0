import PoseRig.Document.Scene
import PoseRig.Edit.Session

/-!
# Stored edit sessions
-/

set_option autoImplicit false

namespace PoseRig

open Document Json

namespace Snapshot

def fieldNames : List String :=
  ["pose", "active_object", "active_action", "selected_bones", "active_bone", "bone_transforms",
    "autokey"]

def toJson (w : RealWriter) (s : Snapshot) : Json :=
  .obj [
    ("pose", .str s.pose),
    ("active_object", ofOptionalText s.activeObject),
    ("active_action", ofOptionalText s.activeAction),
    ("selected_bones", Json.strings s.selectedBones),
    ("active_bone", ofOptionalText s.activeBone),
    ("bone_transforms", ofTable (Transform.toJson w) s.transforms),
    ("autokey", .bool s.autoKey)]

def ofJsonIn? (turn : Turn) (j : Json) : Option Snapshot := do
  let fs ← j.record? fieldNames
  let d : Snapshot := {}
  let pose ← orElse fs "pose" text? d.pose
  let activeObject ← orElse fs "active_object" optionalText? d.activeObject
  let activeAction ← orElse fs "active_action" optionalText? d.activeAction
  let selectedBones ← orElse fs "selected_bones" (list? text?) d.selectedBones
  let activeBone ← orElse fs "active_bone" optionalText? d.activeBone
  let transforms ← orElse fs "bone_transforms" (table? (Transform.ofJsonIn? turn)) d.transforms
  let autoKey ← orElse fs "autokey" flag? d.autoKey
  return { pose, activeObject, activeAction, selectedBones, activeBone, transforms, autoKey }

end Snapshot

inductive SessionState where
  | idle
  | editing
  deriving DecidableEq, Repr

instance : Labelled SessionState where
  all := [.idle, .editing]
  label
    | .idle => "IDLE"
    | .editing => "EDITING"

namespace Session

def toJson (w : RealWriter) : Session → Json
  | .idle => .obj [("state", ofChoice SessionState.idle)]
  | .editing s => .obj [("state", ofChoice SessionState.editing), ("snapshot", s.toJson w)]

def ofJson? (j : Json) : Option Session :=
  match j.tagged? SessionState "state" "snapshot" .atOnce with
  | some ⟨.idle, none, _⟩ => some .idle
  | some ⟨.idle, some .null, _⟩ => some .idle
  | some ⟨.editing, some c, turn⟩ => (Snapshot.ofJsonIn? turn c).map .editing
  | _ => none

end Session

end PoseRig
