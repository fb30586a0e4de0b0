import PoseRig.Scene.Basic

/-!
# Edit sessions

While an action is being edited the session holds a snapshot of the rig as it was on entry.
-/

set_option autoImplicit false

namespace PoseRig

/-- The state of the rig on entering action edit, and the pose that is edited. -/
structure Snapshot where
  pose : String := ""
  activeObject : Option String := none
  activeAction : Option String := none
  selectedBones : List String := []
  activeBone : Option String := none
  transforms : Table Transform := .empty
  autoKey : Bool := false

inductive Session where
  | idle
  | editing (snapshot : Snapshot)

namespace Session

instance : Inhabited Session := ⟨.idle⟩

def isEditing : Session → Bool
  | .idle => false
  | .editing _ => true

def editingPose? : Session → Option String
  | .idle => none
  | .editing snapshot => some snapshot.pose

end Session

end PoseRig
