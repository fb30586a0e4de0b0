import PoseRig.Proofs.Pose.Library
import PoseRig.Proofs.Scene.Context

/-!
# Selecting that fails

Switching to an object that is not there leaves pose mode before the object is looked up, and
selecting the bone that drives a pose switches to its target before the bone is looked up. So what a
selection that fails has changed is what the switch changed: the active object and the mode, and
nothing that objects carry.
-/

set_option autoImplicit false

namespace PoseRig

def Library.target? (l : Library) (index : Nat) : Option String := l.poses[index]?.bind (·.target)

namespace Scene

variable {s s' : Scene} {l : Library} {name : String}

/-- The object is the active one already, or there is none of that name and no mode to leave. -/
def Stays (s : Scene) (name : String) : Prop :=
  s.activeObject = some name ∨ s.kind? name = none ∧ s.mode = .object

theorem switchActiveObject_same (h : s.activeObject = some name) :
    s.switchActiveObject name = (.ok (), s) :=
  if_pos h

theorem switchActiveObject_missing (hother : s.activeObject ≠ some name) (h : s.kind? name = none) :
    s.switchActiveObject name = (.error (.objectNotFound name), { s with mode := .object }) := by
  rw [switchActiveObject, if_neg hother, Option.map_eq_none_iff.mp h]

theorem switchActiveObject_found (hother : s.activeObject ≠ some name) {kind : ObjectKind}
    (h : s.kind? name = some kind) :
    s.switchActiveObject name =
      (.ok (), { s with
        activeObject := some name
        mode := if s.mode = .pose ∧ kind = .armature then .pose else .object }) := by
  obtain ⟨o, ho, rfl⟩ := Option.map_eq_some_iff.mp h
  rw [switchActiveObject, if_neg hother, ho]

theorem switchActiveObject_frame (s : Scene) (name : String) :
    ∃ active mode, (s.switchActiveObject name).2 =
      { s with activeObject := active, mode := mode } := by
  by_cases hother : s.activeObject = some name
  · rw [switchActiveObject_same hother]
    exact ⟨s.activeObject, s.mode, rfl⟩
  · cases hkind : s.kind? name with
    | none =>
      rw [switchActiveObject_missing hother hkind]
      exact ⟨s.activeObject, .object, rfl⟩
    | some kind =>
      rw [switchActiveObject_found hother hkind]
      exact ⟨some name, _, rfl⟩

theorem activeObject_switchActiveObject (h : s.kind? name = none) :
    (s.switchActiveObject name).2.activeObject = s.activeObject := by
  by_cases hother : s.activeObject = some name
  · rw [switchActiveObject_same hother]
  · rw [switchActiveObject_missing hother h]

theorem switchActiveObject_eq_self_iff (s : Scene) (name : String) :
    (s.switchActiveObject name).2 = s ↔ s.Stays name := by
  by_cases hother : s.activeObject = some name
  · rw [switchActiveObject_same hother]
    exact iff_of_true rfl (Or.inl hother)
  · rw [Stays, or_iff_right hother]
    cases hkind : s.kind? name with
    | none =>
      rw [switchActiveObject_missing hother hkind]
      constructor
      · intro hsame
        exact ⟨rfl, (congrArg Scene.mode hsame).symm⟩
      · rintro ⟨-, hmode⟩
        rw [← hmode]
    | some kind =>
      rw [switchActiveObject_found hother hkind]
      constructor
      · intro hsame
        exact absurd (congrArg Scene.activeObject hsame).symm hother
      · rintro ⟨⟨⟩, -⟩

theorem selectTargetBone_error {index : Nat} {e : Fault}
    (h : s.selectTargetBone l index = (.error e, s')) :
    (l.target? index = none ∧ s' = s) ∨
      ∃ target, l.target? index = some target ∧ s' = (s.switchActiveObject target).2 := by
  unfold selectTargetBone at h
  split at h
  · rename_i e' hp
    left
    have hnone : l.target? index = none := by
      rw [Library.target?, Library.getElem?_of_get_error hp, Option.bind_none]
    exact ⟨hnone, (Prod.mk.inj h).2.symm⟩
  · rename_i p hp
    have htarget : l.target? index = p.target := by
      rw [Library.target?, Library.get_eq_ok.mp hp, Option.bind_some]
    split at h
    · rename_i hnone
      exact Or.inl ⟨htarget.trans hnone, (Prod.mk.inj h).2.symm⟩
    · rename_i target hsome
      right
      refine ⟨target, htarget.trans hsome, ?_⟩
      split at h
      · rename_i hswitch
        rw [hswitch]
        exact (Prod.mk.inj h).2.symm
      · rename_i hswitch
        rw [hswitch]
        split at h
        · exact (Prod.mk.inj h).2.symm
        · cases (Prod.mk.inj h).1

/-- A selection that fails keeps everything that objects carry, the actions and the auto-key
flag. It changes nothing at all exactly if there is no target, or switching to it changes
nothing; where the target is there it ends up as the active object. A switch to an object that is
not there keeps the active object, and keeps the mode exactly if that is object mode or the name
is the active one's. -/
theorem selectTargetBone_fault (s s' : Scene) (l : Library) (index : Nat) (e : Fault)
    (h : s.selectTargetBone l index = (.error e, s')) :
    (∃ active mode, s' = { s with activeObject := active, mode := mode }) ∧
      (s' = s ↔ ∀ target, l.target? index = some target → s.Stays target) ∧
      (∀ target kind, l.target? index = some target → s.kind? target = some kind →
        s'.activeObject = some target) ∧
      ∀ name, s.kind? name = none →
        (s.switchActiveObject name).2.activeObject = s.activeObject ∧
        ((s.switchActiveObject name).2 = s ↔ s.Stays name) := by
  have hswitch (name : String) (hname : s.kind? name = none) :
      (s.switchActiveObject name).2.activeObject = s.activeObject ∧
        ((s.switchActiveObject name).2 = s ↔ s.Stays name) :=
    ⟨activeObject_switchActiveObject hname, s.switchActiveObject_eq_self_iff name⟩
  obtain ⟨hnone, rfl⟩ | ⟨target, htarget, rfl⟩ := selectTargetBone_error h
  · have hno {target : String} (htarget : l.target? index = some target) : False := by
      cases hnone.symm.trans htarget
    exact ⟨⟨_, _, rfl⟩, iff_of_true rfl fun _ htarget => (hno htarget).elim,
      fun _ _ htarget _ => (hno htarget).elim, hswitch⟩
  · refine ⟨s.switchActiveObject_frame target, ?_, ?_, hswitch⟩
    · rw [s.switchActiveObject_eq_self_iff target, htarget]
      constructor
      · rintro hstays _ ⟨⟩
        exact hstays
      · intro hstays
        exact hstays target rfl
    · intro target' kind htarget' hkind
      obtain rfl := Option.some.inj (htarget.symm.trans htarget')
      by_cases hother : s.activeObject = some target
      · rw [switchActiveObject_same hother, hother]
      · rw [switchActiveObject_found hother hkind]

def faceScene : Scene where
  objects := .ofList
    [("Face", { kind := .armature, armature := some { bones := .ofList [("Brow", {})] } }),
      ("Rig", { kind := .armature, armature := some { bones := .ofList [("Jaw", {})] } })]
  activeObject := some "Rig"
  mode := .pose

def faceLibrary : Library where
  poses := [.ofChannel "Grin" "Face" "Lip" ⟨.location, .y⟩,
    .ofChannel "Frown" "Mask" "Brow" ⟨.location, .y⟩, .ofName "Smile"]

theorem selectTargetBone_fault_face :
    (∃ e s', faceScene.selectTargetBone faceLibrary 0 = (.error e, s') ∧ s' ≠ faceScene ∧
      s'.activeObject = some "Face") ∧
    ∃ e s', faceScene.selectTargetBone faceLibrary 2 = (.error e, s') ∧ s' = faceScene := by
  obtain ⟨-, hsame, hactive, -⟩ := selectTargetBone_fault faceScene _ faceLibrary 0 _ rfl
  obtain ⟨-, hkept, -, -⟩ := selectTargetBone_fault faceScene _ faceLibrary 2 _ rfl
  refine ⟨⟨_, _, rfl, ?_, hactive "Face" .armature rfl rfl⟩, _, _, rfl, hkept.mpr nofun⟩
  intro h
  obtain hother | ⟨hmissing, -⟩ := hsame.mp h "Face" rfl
  · exact absurd hother (by decide)
  · cases hmissing

/-- Looking for a bone that the face lacks makes the face active, and switching to an object that is
not there leaves pose mode. -/
theorem selectTargetBone_switches_first :
    (∃ s', faceScene.selectTargetBone faceLibrary 0 = (.error (.boneNotFound "Face" "Lip"), s') ∧
      faceScene.activeObject = some "Rig" ∧ s'.activeObject = some "Face") ∧
    ∃ s', faceScene.switchActiveObject "Mask" = (.error (.objectNotFound "Mask"), s') ∧
      faceScene.mode = .pose ∧ s'.mode = .object :=
  ⟨⟨_, rfl, rfl, rfl⟩, _, rfl, rfl, rfl⟩

end Scene

end PoseRig
