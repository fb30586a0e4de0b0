import PoseRig.Network.Compile
import PoseRig.Proofs.Pose.Renaming

/-!
# Deleting the action of a pose

Deleting an action takes the references of all poses to it away. Those of objects and constraints go
along with the action itself, so they stay where there was no such action any more.
-/

set_option autoImplicit false

namespace PoseRig

variable {l l' : Library} {s s' : Scene} {name : String}

namespace ActionSlot

def OfScene : ActionSlot → Prop
  | ofPose _ => False
  | ofObject _ | ofConstraint _ _ _ => True

theorem name?_of_scene {slot : ActionSlot} (h : slot.OfScene) (l l' : Library) (s : Scene) :
    slot.name? l' s = slot.name? l s := by
  cases slot with
  | ofPose index => cases h
  | ofObject object => rfl
  | ofConstraint object bone index => rfl

theorem name?_retarget_pose {slot : ActionSlot} (h : ¬slot.OfScene) (l : Library) (s s' : Scene)
    (old : String) (new : Option String) :
    slot.name? (l.retarget old new) s' = Scene.retarget old new (slot.name? l s) := by
  cases slot with
  | ofPose index => exact name?_retarget l s (ofPose index)
  | ofObject object => exact absurd trivial h
  | ofConstraint object bone index => exact absurd trivial h

theorem name?_removeAction (h : s.hasAction name = true) (l : Library) (slot : ActionSlot) :
    slot.name? (l.retarget name none) (s.removeAction name) =
      Scene.retarget name none (slot.name? l s) := by
  rw [Scene.removeAction, if_pos h]
  exact name?_retarget l { s with actions := s.actions.erase name } slot

end ActionSlot

theorem Scene.removeAction_of_gone (h : s.hasAction name = false) : s.removeAction name = s :=
  if_neg (by simp [h])

theorem Scene.get?_removeAction (s : Scene) (name other : String) :
    (s.removeAction name).actions.get? other = if other =
      name then none else s.actions.get? other := by
  cases h : s.hasAction name with
  | true =>
    rw [removeAction, if_pos h]
    exact Table.get?_erase s.actions name other
  | false =>
    rw [removeAction_of_gone h]
    split_ifs with hother
    · simpa [hasAction, Table.contains, hother] using h
    · rfl

theorem Scene.retarget_none_ne (name : String) (reference : Option String) :
    retarget name none reference ≠ some name := by
  unfold retarget
  split_ifs with h
  · exact nofun
  · exact h

namespace Library

theorem deleteAction_ok {index : Nat} (h : l.deleteAction s index = .ok (name, s', l')) :
    (∃ p, l.actionOf index = .ok (p, name)) ∧ s' = s.removeAction name ∧
    l' = l.retarget name none := by
  unfold deleteAction at h
  split at h
  · cases h
  · rename_i p old hold
    cases h
    exact ⟨⟨p, hold⟩, rfl, rfl⟩

/-- After the action of a pose is deleted there is no action of that name and no pose refers to it,
while the other actions and the references to them are as before. Nothing else refers to it either
exactly if the action was there or nothing in the scene did before: of an action that was already
gone, objects and constraints keep their references. -/
theorem deleteAction_clears (l l' : Library) (s s' : Scene) (index : Nat) (name : String)
    (h : l.deleteAction s index = .ok (name, s', l')) :
    s'.actions.get? name = none ∧
      (∀ other, other ≠ name → s'.actions.get? other = s.actions.get? other) ∧
      (∀ slot : ActionSlot, slot.name? l s ≠ some name → slot.name? l' s' = slot.name? l s) ∧
      (∀ slot : ActionSlot, ¬slot.OfScene → slot.name? l' s' ≠ some name) ∧
      ((∀ slot : ActionSlot, slot.name? l' s' ≠ some name) ↔
        s.hasAction name = true ∨
          ∀ slot : ActionSlot, slot.OfScene → slot.name? l s ≠ some name) := by
  obtain ⟨-, rfl, rfl⟩ := deleteAction_ok h
  have hpose (slot : ActionSlot) (hslot : ¬slot.OfScene) :
      slot.name? (l.retarget name none) (s.removeAction name) =
        Scene.retarget name none (slot.name? l s) :=
    ActionSlot.name?_retarget_pose hslot l s _ name none
  refine ⟨?_, ?_, ?_, ?_, ?_⟩
  · rw [Scene.get?_removeAction, if_pos rfl]
  · intro other hother
    rw [Scene.get?_removeAction, if_neg hother]
  · intro slot hslot
    cases hthere : s.hasAction name with
    | true => exact (ActionSlot.name?_removeAction hthere l slot).trans (Scene.retarget_of_ne hslot)
    | false =>
      by_cases hscene : slot.OfScene
      · rw [Scene.removeAction_of_gone hthere, ActionSlot.name?_of_scene hscene l]
      · exact (hpose slot hscene).trans (Scene.retarget_of_ne hslot)
  · intro slot hslot
    rw [hpose slot hslot]
    exact Scene.retarget_none_ne name _
  · cases hthere : s.hasAction name with
    | true =>
      refine iff_of_true (fun slot => ?_) (Or.inl rfl)
      rw [ActionSlot.name?_removeAction hthere]
      exact Scene.retarget_none_ne name _
    | false =>
      rw [or_iff_right Bool.false_ne_true, Scene.removeAction_of_gone hthere]
      constructor
      · intro hcleared slot hscene
        rw [← ActionSlot.name?_of_scene hscene l (l.retarget name none)]
        exact hcleared slot
      · intro hfree slot
        by_cases hscene : slot.OfScene
        · rw [ActionSlot.name?_of_scene hscene l]
          exact hfree slot hscene
        · rw [ActionSlot.name?_retarget_pose hscene l s s name none]
          exact Scene.retarget_none_ne name _

theorem deleteAction_clears_busy :
    ∃ s' l', busyLibrary.deleteAction busyScene 0 = .ok ("Idle", s', l') ∧
      (∀ slot : ActionSlot, slot.name? l' s' ≠ some "Idle") ∧
      (ActionSlot.ofConstraint "Rig" "Jaw" 0).name? l' s' = some "Smile.001" ∧
      (ActionSlot.ofPose 2).name? l' s' = some "Grin" := by
  obtain ⟨-, -, hkept, -, hcleared⟩ := deleteAction_clears busyLibrary _ busyScene _ 0 "Idle" rfl
  exact ⟨_, _, rfl, hcleared.mpr (Or.inl rfl), hkept (.ofConstraint "Rig" "Jaw" 0) (by decide),
    hkept (.ofPose 2) (by decide)⟩

def grinPose : Pose :=
  { (Pose.ofChannel "Grin" "Rig" "Jaw" ⟨.location, .y⟩).withBones
    ["Jaw"] with action := some "Grin" }

def grinScene : Scene where
  objects := .ofList
    [("Rig", { kind := .armature, armature := some { bones := .ofList [("Jaw", {})] } })]

/-- The constraint compiled for such a pose refers to the action still after it was deleted. -/
theorem deleteAction_keeps_compiled :
    ∃ report s s' l',
      Network.compile {} "Rig" { poses := [grinPose] } grinPose grinScene = .ok (report, s) ∧
      ({ poses := [grinPose] } : Library).deleteAction s 0 = .ok ("Grin", s', l') ∧
      (ActionSlot.ofConstraint "Rig" "Jaw" 0).name? l' s' = some "Grin" :=
  ⟨_, _, _, _, rfl, rfl, rfl⟩

end Library

end PoseRig
