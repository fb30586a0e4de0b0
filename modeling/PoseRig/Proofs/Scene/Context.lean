import PoseRig.Pose.Bones
import PoseRig.Proofs.Scene.Assign

/-!
# The active object and the mode

Pose mode belongs to armatures. A scene that keeps to this still does after switching to another
object, also where there is no such object, since switching leaves pose mode first. A change of what
objects carry concerns neither the active object nor the mode.
-/

set_option autoImplicit false

namespace PoseRig.Scene

def kind? (s : Scene) (name : String) : Option ObjectKind := (s.objects.get? name).map (·.kind)

def activeKind? (s : Scene) : Option ObjectKind := s.activeObject.bind s.kind?

/-- In pose mode the active object is there and is an armature. -/
def WellModed (s : Scene) : Prop := s.mode = .pose → s.activeKind? = some .armature

instance (s : Scene) : Decidable s.WellModed := inferInstanceAs (Decidable (_ → _))

/-- The same objects by name and kind, the same active object and the same mode. -/
structure SameContext (s s' : Scene) : Prop where
  kinds : s'.kind? = s.kind?
  activeObject : s'.activeObject = s.activeObject
  mode : s'.mode = s.mode

variable {s s' s'' : Scene} {rig : String} {o o' : Object}

theorem kind?_of_object (ho : s.object rig = .ok o) : s.kind? rig = some o.kind := by
  rw [kind?, object_eq_ok.mp ho, Option.map_some]

namespace SameContext

theorem refl (s : Scene) : SameContext s s := ⟨rfl, rfl, rfl⟩

theorem trans (h : SameContext s s') (h' : SameContext s' s'') : SameContext s s'' :=
  ⟨h'.kinds.trans h.kinds, h'.activeObject.trans h.activeObject, h'.mode.trans h.mode⟩

theorem activeKind? (h : SameContext s s') : s'.activeKind? = s.activeKind? := by
  rw [Scene.activeKind?, Scene.activeKind?, h.kinds, h.activeObject]

theorem wellModed_iff (h : SameContext s s') : s'.WellModed ↔ s.WellModed := by
  rw [WellModed, WellModed, h.mode, h.activeKind?]

theorem updateObject (s : Scene) (name : String) {f : Object → Object}
    (hf : ∀ o, (f o).kind = o.kind) : SameContext s (s.updateObject name f) := by
  refine ⟨?_, rfl, rfl⟩
  funext other
  rw [kind?, Scene.updateObject, Table.get?_update]
  split
  · rw [Option.map_map]
    exact congrArg (fun g => Option.map g (s.objects.get? other)) (funext hf)
  · rfl

theorem updateArmature (s : Scene) (name : String) (f : Armature → Armature) :
    SameContext s (s.updateArmature name f) := updateObject s name fun _ => rfl

theorem setObject (ho : s.object rig = .ok o) (hkind : o'.kind = o.kind) :
    SameContext s (s.setObject rig o') := by
  refine ⟨?_, rfl, rfl⟩
  funext other
  rw [kind?, Scene.setObject, Table.get?_insert]
  split
  · rename_i h
    rw [h, Option.map_some, hkind, kind?_of_object ho]
  · rfl

theorem assignAction {action : Option String} (h : s.assignAction rig action = .ok s') :
    SameContext s s' := by
  cases ho : s.object rig with
  | error e => simp [Scene.assignAction, ho] at h
  | ok o =>
    obtain ⟨actions, -, rfl⟩ := assignAction_ok ho h
    have hstart : SameContext s { s with actions := actions } := ⟨rfl, rfl, rfl⟩
    have hrig : ({ s with actions := actions } : Scene).object rig = .ok o := ho
    exact hstart.trans (setObject hrig rfl)

end SameContext

theorem objects_switchActiveObject (s : Scene) (name : String) :
    (s.switchActiveObject name).2.objects = s.objects := by
  unfold switchActiveObject
  split
  · rfl
  · cases s.objects.get? name <;> rfl

theorem wellModed_of_object (h : s.mode = .object) : s.WellModed := by
  intro hpose
  rw [h] at hpose
  cases hpose

theorem WellModed.switchActiveObject (h : s.WellModed) (name : String) :
    (s.switchActiveObject name).2.WellModed := by
  unfold Scene.switchActiveObject
  split
  · exact h
  · cases ho : s.objects.get? name with
    | none => exact wellModed_of_object rfl
    | some o =>
      dsimp only
      by_cases harmature : o.kind = .armature
      · intro _
        show (some name).bind s.kind? = some .armature
        rw [Option.bind_some, kind?, ho, Option.map_some, harmature]
      · apply wellModed_of_object
        exact if_neg fun h => harmature h.2

theorem WellModed.selectTargetBone (h : s.WellModed) (l : Library) (index : Nat) :
    (s.selectTargetBone l index).2.WellModed := by
  unfold Scene.selectTargetBone
  split
  · exact h
  · split
    · exact h
    · rename_i target _
      have hswitched := h.switchActiveObject target
      split
      · rename_i hswitch
        rwa [hswitch] at hswitched
      · rename_i hswitch
        rw [hswitch] at hswitched
        split
        · exact hswitched
        · exact (SameContext.updateArmature _ target _).wellModed_iff.mpr hswitched

end PoseRig.Scene
