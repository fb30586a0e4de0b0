import PoseRig.Proofs.Pose.Library
import PoseRig.Proofs.Scene.ActionRefs

/-!
# Renaming the action of a pose

Poses, objects and constraints refer to actions by name. Renaming an action takes every reference to
it along and no other one, and all other actions keep their names, so that whatever was referred to
still is.
-/

set_option autoImplicit false

namespace PoseRig

/-- Where an action can be referred to: by a pose, as what an object plays, or by a constraint
of a bone. -/
inductive ActionSlot where
  | ofPose (index : Nat)
  | ofObject (name : String)
  | ofConstraint (object bone : String) (index : Nat)

namespace ActionSlot

def name? (l : Library) (s : Scene) : ActionSlot → Option String
  | ofPose index => l.poses[index]?.bind (·.action)
  | ofObject name => s.activeAction? name
  | ofConstraint object bone index =>
    (s.bone object bone).toOption.bind fun b => b.constraints[index]?.bind (·.action)

def action? (l : Library) (s : Scene) (slot : ActionSlot) : Option Action :=
  (slot.name? l s).bind s.actions.get?

end ActionSlot

variable {l l' : Library} {s s' : Scene} {old final : String} {new reference : Option String}

namespace Scene

theorem retarget_of_eq (h : reference = some old) : retarget old new reference = new := if_pos h

theorem retarget_of_ne (h : reference ≠ some old) : retarget old new reference = reference :=
  if_neg h

theorem retarget_self (old : String) (reference : Option String) :
    retarget old (some old) reference = reference := by
  by_cases h : reference = some old
  · rw [retarget_of_eq h, h]
  · exact retarget_of_ne h

theorem bind_map_retarget {α : Type} (action : α → Option String) {f : α → α}
    (hf : ∀ a, action (f a) = retarget old new (action a)) (found : Option α) :
    (found.map f).bind action = retarget old new (found.bind action) := by
  cases found with
  | none => rfl
  | some a => exact hf a

theorem bone_retargetActions (s : Scene) (object bone : String) :
    (s.retargetActions old new).bone object bone =
      (s.bone object bone).map (retargetBone old new) := by
  rw [Scene.bone, Scene.bone, armature, armature, Scene.object, Scene.object, retargetActions,
    Table.get?_map]
  cases s.objects.get? object with
  | none => rfl
  | some o =>
    cases ha : o.armature with
    | none => simp [retargetObject, ha, Except.map]
    | some a =>
      simp only [Option.map_some, retargetObject, ha, Armature.mapBones, Table.get?_map]
      cases a.bones.get? bone <;> rfl

end Scene

open Scene (retargetBone retargetObject)

theorem Pose.action_retarget (p : Pose) :
    (p.retarget old new).action = Scene.retarget old new p.action := by
  unfold Pose.retarget Scene.retarget
  split <;> rfl

theorem Pose.retarget_self (p : Pose) (old : String) : p.retarget old (some old) = p := by
  unfold Pose.retarget
  split
  · rename_i h
    rw [← h]
  · rfl

theorem Library.retarget_self (l : Library) (old : String) : l.retarget old (some old) = l := by
  simp [retarget, Pose.retarget_self]

theorem Object.activeAction_retargetObject (o : Object) :
    (retargetObject old new o).activeAction = Scene.retarget old new o.activeAction := by
  rw [activeAction, activeAction, retargetObject]
  apply Scene.bind_map_retarget Animation.action
  exact fun _ => rfl

namespace ActionSlot

open Scene (retarget)

theorem name?_retarget (l : Library) (s : Scene) (slot : ActionSlot) :
    slot.name? (l.retarget old new) (s.retargetActions old new) =
      retarget old new (slot.name? l s) := by
  cases slot with
  | ofPose index =>
    simp only [name?, Library.retarget, List.getElem?_map]
    exact Scene.bind_map_retarget Pose.action Pose.action_retarget _
  | ofObject name =>
    simp only [name?, Scene.activeAction?, Scene.retargetActions, Table.get?_map]
    exact Scene.bind_map_retarget Object.activeAction Object.activeAction_retargetObject _
  | ofConstraint object bone index =>
    have hconstraint (b : Bone) : (retargetBone old new b).constraints[index]?.bind (·.action) =
        retarget old new (b.constraints[index]?.bind (·.action)) := by
      rw [retargetBone, List.getElem?_map]
      apply Scene.bind_map_retarget Constraint.action
      exact fun _ => rfl
    simp only [name?, Scene.bone_retargetActions]
    cases s.bone object bone with
    | error e => rfl
    | ok b => exact hconstraint b

theorem name?_renameAction {new : String} (h : s.renameAction old new = .ok (final, s'))
    (l : Library) (slot : ActionSlot) :
    slot.name? (l.retarget old (some final)) s' = retarget old (some final) (slot.name? l s) := by
  obtain ⟨-, rfl, rfl⟩ | ⟨a, -, -, rfl⟩ := Scene.renameAction_ok h
  · rw [Library.retarget_self, Scene.retarget_self]
  · exact name?_retarget l { s with actions := (s.actions.erase old).insert final a } slot

end ActionSlot

namespace Scene

variable {new : String}

theorem actions_renameAction (h : s.renameAction old new = .ok (final, s')) :
    s'.actions.entries.Perm
      (s.actions.entries.map fun e => (if e.1 = old then final else e.1, e.2)) := by
  obtain ⟨-, rfl, rfl⟩ | ⟨a, ha, hfinal, rfl⟩ := renameAction_ok h
  · have hsame (e : String × Action) : (if e.1 = final then final else e.1, e.2) = e := by
      split_ifs with he
      · rw [← he]
      · rfl
    rw [List.map_congr_left fun e _ => hsame e, List.map_id']
  · exact Table.rename_perm ha (hfinal ▸ Naming.fresh_not_mem _ new)

theorem name_renameAction (h : s.renameAction old new = .ok (final, s')) :
    (final = new ∨ ∃ n, final = Naming.candidate new (n + 1)) ∧
      ∀ name ∈ s.actions.names, name ≠ old → name ≠ final := by
  obtain ⟨rfl, rfl, rfl⟩ | ⟨a, -, rfl, rfl⟩ := renameAction_ok h
  · exact ⟨Or.inl rfl, fun _ _ hne => hne⟩
  · refine ⟨Naming.fresh_cases _ new, ?_⟩
    intro name hname hne hfinal
    apply Naming.fresh_not_mem (s.actions.erase old).names new
    rw [← hfinal, Table.names_erase]
    exact List.mem_filter.mpr ⟨hname, by simpa using hne⟩

end Scene

namespace Library

/-- Renaming the action of a pose renames one action and nothing else about the actions. What
referred to it refers to its new name, whatever referred to anything else or to nothing still does,
and where there was an action to find the same one is found. -/
theorem renameAction_transparent (l l' : Library) (s s' : Scene) (index : Nat) (new final : String)
    (h : l.renameAction s index new = .ok (final, s', l')) :
    ∃ old, (ActionSlot.ofPose index).name? l s = some old ∧
      s'.actions.entries.Perm
        (s.actions.entries.map fun e => (if e.1 = old then final else e.1, e.2)) ∧
      (∀ slot : ActionSlot, slot.name? l s = some old → slot.name? l' s' = some final) ∧
      (∀ slot : ActionSlot, slot.name? l s ≠ some old → slot.name? l' s' = slot.name? l s) ∧
      (∀ (slot : ActionSlot) x, slot.action? l s = some x → slot.action? l' s' = some x) ∧
      (final = new ∨ ∃ n, final = Naming.candidate new (n + 1)) ∧
      ∀ name ∈ s.actions.names, name ≠ old → name ≠ final := by
  obtain ⟨p, old, hold, hs, rfl⟩ := renameAction_ok h
  obtain ⟨hp, haction⟩ := actionOf_ok hold
  have hslots := ActionSlot.name?_renameAction hs l
  have hto (slot : ActionSlot) (hslot : slot.name? l s = some old) :
      slot.name? (l.retarget old (some final)) s' = some final :=
    (hslots slot).trans (Scene.retarget_of_eq hslot)
  have hkept (slot : ActionSlot) (hslot : slot.name? l s ≠ some old) :
      slot.name? (l.retarget old (some final)) s' = slot.name? l s :=
    (hslots slot).trans (Scene.retarget_of_ne hslot)
  refine ⟨old, ?_, Scene.actions_renameAction hs, hto, hkept, ?_, Scene.name_renameAction hs⟩
  · rw [ActionSlot.name?, get_eq_ok.mp hp, Option.bind_some, haction]
  · intro slot x hx
    obtain ⟨name, hname, hfound⟩ := Option.bind_eq_some_iff.mp hx
    have hafter := Scene.get?_renameAction hs hfound
    rw [ActionSlot.action?]
    -- the action that is found is the renamed one or keeps its name, and so does the reference to
    -- it
    split_ifs at hafter with heq
    · rw [hto slot (heq ▸ hname), Option.bind_some, hafter]
    · have hother : slot.name? l s ≠ some old :=
        fun hslot => heq (Option.some.inj (hname.symm.trans hslot))
      rw [hkept slot hother, hname, Option.bind_some, hafter]

def busyRig : Object where
  kind := .armature
  armature := some
    { bones := .ofList
        [("Jaw",
          { constraints := [{ action := some "Smile.001" },
              { name := "Rest", action := some "Idle" }] })] }
  animation := some { action := some "Idle" }

def busyScene : Scene where
  objects := .ofList [("Rig", busyRig)]
  actions :=
    .ofList [("Idle", { groups := ["Jaw"] }), ("Smile", {}), ("Smile.001", { keep := true })]

def busyLibrary : Library where
  poses :=
    [{ Pose.ofName "Rest" with action := some "Idle" },
      { Pose.ofName "Smile" with action := some "Smile" },
      { Pose.ofName "Grin" with action := some "Grin" }]

theorem renameAction_transparent_busy :
    ∃ final s' l', busyLibrary.renameAction busyScene 0 "Smile" = .ok (final, s', l') ∧
      final = "Smile.002" ∧ (ActionSlot.ofObject "Rig").name? l' s' = some final ∧
      (ActionSlot.ofConstraint "Rig" "Jaw" 0).action? l' s' = some { keep := true } ∧
      (ActionSlot.ofConstraint "Rig" "Jaw" 1).action? l' s' = some { groups := ["Jaw"] } ∧
      (ActionSlot.ofPose 2).name? l' s' = some "Grin" := by
  have hrename : ∃ final s' l', busyLibrary.renameAction busyScene 0 "Smile" = .ok (final, s', l') ∧
      final = "Smile.002" := ⟨_, _, _, rfl, by decide +kernel⟩
  obtain ⟨final, s', l', hrename, hfinal⟩ := hrename
  obtain ⟨old, hold, -, hto, hkept, hfound, -, -⟩ :=
    renameAction_transparent busyLibrary l' busyScene s' 0 "Smile" final hrename
  obtain rfl : "Idle" = old := Option.some.inj hold
  exact ⟨final, s', l', hrename, hfinal, hto _ rfl, hfound _ _ rfl, hfound _ _ rfl,
    hkept _ (by decide)⟩

end Library

end PoseRig
