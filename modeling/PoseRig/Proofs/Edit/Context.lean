import PoseRig.Proofs.Edit.Suspend
import PoseRig.Proofs.Network.Compile
import PoseRig.Proofs.Scene.Context
import PoseRig.Workspace.Command

/-!
# The active object across an edit

Entering action edit and building the network change neither the active object nor the mode. Leaving
goes back to the object that was active on entry. Where none was, leaving has nothing to go back to
and the object that is active by then stays so.
-/

set_option autoImplicit false

namespace PoseRig

open Scene (SameContext)

variable {prefs : Preferences} {rig : String} {l : Library} {s s' : Scene} {report : Report}

namespace Network

theorem context_compile {p : Pose} (h : compile prefs rig l p s = .ok (report, s')) :
    SameContext s s' := by
  obtain ⟨inputs, o, a, -, ho, -, -, rfl⟩ := compile_eq_ok.mp h
  exact SameContext.setObject ho (kind_install prefs inputs p a o)

theorem context_purge {counts : PurgeCounts} (h : purge prefs rig s = .ok (counts, s')) :
    SameContext s s' := by
  unfold purge at h
  split at h
  · cases h
  · cases h
    exact SameContext.updateObject s rig fun _ => rfl

theorem context_rebuild (prefs : Preferences) (rig : String) (l : Library) (s : Scene) :
    SameContext s (rebuild prefs rig l s).2 :=
  rebuild_preserves prefs rig l (fun _ _ hp => context_purge hp)
    (fun _ _ _ _ _ h hc => h.trans (context_compile hc)) (SameContext.refl s)

end Network

namespace Edit

variable {index : Nat} {session session' : Session} {former : Option String}

theorem context_tryAssign (s : Scene) (rig : String) (action : Option String) :
    SameContext s (tryAssign s rig action).2 := by
  unfold tryAssign
  split
  · exact SameContext.assignAction ‹_›
  · exact SameContext.refl s

theorem context_enter (h : enter prefs rig l index session s = .ok (report, session', s')) :
    SameContext s s' := by
  obtain ⟨p, nested, o, a, -, -, -, -, -, rfl⟩ := enter_eq_ok h
  have hrested := SameContext.updateArmature s rig (·.restBones)
  have hassigned := hrested.trans (context_tryAssign _ rig p.action)
  have hkeyed : SameContext s { (tryAssign (s.updateArmature rig (·.restBones)) rig p.action).2 with
      autoKey := true } := hassigned.trans ⟨rfl, rfl, rfl⟩
  exact hkeyed.trans (SameContext.updateArmature _ rig _)

theorem armature_enter (h : enter prefs rig l index session s = .ok (report, session', s')) :
    ∃ a, s'.armature rig = .ok a := by
  obtain ⟨p, nested, o, a, -, -, ho, hoa, -, rfl⟩ := enter_eq_ok h
  have hrested := Scene.armature_updateArmature (Scene.armature_of_object ho hoa) (·.restBones)
  have hassigned := (armature_tryAssign _ rig p.action).trans hrested
  exact ⟨_, Scene.armature_updateArmature hassigned _⟩

/-- The object that is active once an edit is left: the former one if it is there, else the
present one. -/
def activeAfter (former : Option String) (s : Scene) : Option String :=
  match former with
  | none => s.activeObject
  | some name => if s.hasObject name then some name else s.activeObject

theorem activeObject_restoreActive (former : Option String) (s : Scene) :
    (restoreActive former s).2.activeObject = activeAfter former s := by
  cases former with
  | none => rfl
  | some name =>
    by_cases hsame : s.activeObject = some name
    · rw [restoreActive_same hsame, activeAfter, hsame, ite_self]
    · by_cases hthere : s.hasObject name = true <;>
        simp [restoreActive, activeAfter, hsame, hthere]

theorem mode_restoreActive {name : String} (h : s.activeObject ≠ some name) :
    (restoreActive (some name) s).2.mode = .pose := by
  simp only [restoreActive, if_neg h]
  split <;> rfl

theorem kind?_restoreActive (former : Option String) (s : Scene) :
    (restoreActive former s).2.kind? = s.kind? := by
  funext name
  rw [Scene.kind?, objects_restoreActive]
  rfl

theorem context_putBack (prefs : Preferences) (rig : String) (taken : Snapshot) (s : Scene) :
    SameContext s (putBack prefs rig taken s) := by
  have hrestored := SameContext.updateArmature s rig (·.restore taken)
  have hcleared := hrestored.trans
    (SameContext.updateObject _ rig (f := fun o => o.removeTemp prefs) fun _ => rfl)
  have henabled := hcleared.trans
    (SameContext.updateArmature _ rig fun a => a.mapBones fun _ b => b.setEnabled prefs true)
  exact henabled.trans ⟨rfl, rfl, rfl⟩

theorem context_leave (prefs : Preferences) (rig : String) (taken : Snapshot) (s : Scene) :
    SameContext (restoreActive taken.activeObject { s with autoKey := false }).2
      (leave prefs rig (.editing taken) s).2.2 := by
  have hassigned : SameContext (restoreActive taken.activeObject { s with autoKey := false }).2
      (reassigned rig taken s) := context_tryAssign _ rig taken.activeAction
  cases ha : s.armature rig with
  | error e =>
    rw [leave_of_no_armature prefs taken ha]
    exact hassigned
  | ok a =>
    rw [leave_of_armature prefs taken ha]
    exact hassigned.trans (context_putBack prefs rig taken _)

theorem activeObject_leave (prefs : Preferences) (rig : String) (taken : Snapshot) (s : Scene) :
    (leave prefs rig (.editing taken) s).2.2.activeObject = activeAfter taken.activeObject s :=
  (context_leave prefs rig taken s).activeObject.trans (activeObject_restoreActive _ _)

end Edit

def Command.changesContext : Command → Bool
  | .scene (.setMode _) | .scene (.setActiveObject _) | .scene (.switchActiveObject _) => true
  | .scene .clearActiveObject => true
  | _ => false

namespace Workspace

variable {w : Workspace}

theorem run_changesContext {c : Command} (hc : c.changesContext = true) :
    ∃ s', (w.run c).2 = { w with scene := s' } ∧ s'.objects = w.scene.objects := by
  cases c with
  | scene c =>
    cases c with
    | setMode mode => exact ⟨_, rfl, rfl⟩
    | setActiveObject name =>
      cases ho : w.scene.object name with
      | error e =>
        exact ⟨w.scene, by simp [run, onScene, settleSceneOnly, Scene.setActiveObject, ho], rfl⟩
      | ok o =>
        exact ⟨{ w.scene with activeObject := some name },
          by simp only [run, onScene, settleSceneOnly, Scene.setActiveObject, ho], rfl⟩
    | switchActiveObject name => exact ⟨_, rfl, Scene.objects_switchActiveObject w.scene name⟩
    | clearActiveObject => exact ⟨_, rfl, rfl⟩
    | _ => cases hc
  | _ => cases hc

theorem runAll_changesContext {cs : List Command} (hcs : ∀ c ∈ cs, c.changesContext = true) :
    ∃ s', w.runAll cs = { w with scene := s' } ∧ s'.objects = w.scene.objects := by
  induction cs generalizing w with
  | nil => exact ⟨w.scene, rfl, rfl⟩
  | cons c r ih =>
    obtain ⟨hc, hr⟩ := List.forall_mem_cons.mp hcs
    obtain ⟨s₁, hrun, hobjects₁⟩ := w.run_changesContext hc
    obtain ⟨s₂, hrest, hobjects₂⟩ := ih (w := (w.run c).2) hr
    rw [hrun] at hrest hobjects₂
    exact ⟨s₂, by rw [runAll, hrun, hrest], hobjects₂.trans hobjects₁⟩

theorem enterEdit_ok {w₁ : Workspace} {index : Nat} {answer : Answer}
    (h : w.run (.rig (.enterEdit index)) = (.ok answer, w₁)) :
    ∃ report session s, Edit.enter w.prefs w.rig w.library index w.session w.scene =
      .ok (report, session, s) ∧ w₁ = { w with session := session, scene := s } := by
  cases he : Edit.enter w.prefs w.rig w.library index w.session w.scene with
  | error e => simp [run, onRig, he] at h
  | ok r =>
    obtain ⟨report, session, s⟩ := r
    simp only [run, onRig, he, Prod.mk.injEq] at h
    exact ⟨report, session, s, rfl, h.2.symm⟩

/-- However the active object and the mode are changed during an edit, leaving makes the object
active that was active on entry, if it is still there. When nothing was active on entry, what is
active on leaving stays so: exactly then can the active object differ from the one on entry. -/
theorem leaveEdit_restores_active (w : Workspace) (index : Nat) (answer : Answer) (w₁ : Workspace)
    (henter : w.run (.rig (.enterEdit index)) = (.ok answer, w₁)) (cs : List Command)
    (hcs : ∀ c ∈ cs, c.changesContext = true)
    (hthere : ∀ name, w.scene.activeObject = some name →
      (w₁.runAll cs).scene.hasObject name = true) :
    ∃ report w₂, (w₁.runAll cs).run (.rig .leaveEdit) = (.ok (.report report), w₂) ∧
      w₂.scene.activeObject = w.scene.activeObject.or (w₁.runAll cs).scene.activeObject ∧
      (w₂.scene.activeObject = w.scene.activeObject ↔
        w.scene.activeObject.isSome ∨ (w₁.runAll cs).scene.activeObject = none) := by
  obtain ⟨report₁, session, s₁, he, rfl⟩ := enterEdit_ok henter
  obtain ⟨p, -, o, a, -, -, -, -, rfl, -⟩ := Edit.enter_eq_ok he
  obtain ⟨s₂, hrun, hobjects⟩ := runAll_changesContext
    (w := { w with session := .editing (Edit.snapshot w.scene o a p.name), scene := s₁ }) hcs
  rw [hrun] at hthere ⊢
  obtain ⟨b, hb⟩ := Edit.armature_enter he
  obtain ⟨report, s₃, -, hleave, -⟩ := Edit.leave_armature w.prefs
    (Edit.snapshot w.scene o a p.name) ((Scene.armature_congr hobjects w.rig).trans hb)
  have hactive : s₃.activeObject = Edit.activeAfter w.scene.activeObject s₂ := by
    have h := Edit.activeObject_leave w.prefs w.rig (Edit.snapshot w.scene o a p.name) s₂
    rwa [hleave] at h
  have hor : s₃.activeObject = w.scene.activeObject.or s₂.activeObject := by
    rw [hactive]
    cases hformer : w.scene.activeObject with
    | none => rfl
    | some name => exact if_pos (hthere name hformer)
  refine ⟨report, { w with session := .idle, scene := s₃ }, ?_, hor, ?_⟩
  · simp only [run, onRig, settleEdit, hleave]
    rfl
  · show s₃.activeObject = w.scene.activeObject ↔ _
    rw [hor]
    cases w.scene.activeObject <;> simp

def stageWorkspace (active : Option String) : Workspace where
  rig := "Rig"
  scene :=
    { objects := .ofList
        [("Rig", { kind := .armature, armature := some { bones := .ofList [("Jaw", {})] } }),
          ("Cube", { kind := .mesh })]
      activeObject := active }
  library := { poses := [.ofName "Smile"] }

def wandering : List Command :=
  [.scene (.setActiveObject "Rig"), .scene (.setMode .pose), .scene .clearActiveObject,
    .scene (.switchActiveObject "Lamp")]

theorem leaveEdit_restores_active_cube :
    ∃ answer w₁ report w₂,
      (stageWorkspace (some "Cube")).run (.rig (.enterEdit 0)) = (.ok answer, w₁) ∧
      (w₁.runAll wandering).scene.activeObject = none ∧
      (w₁.runAll wandering).run (.rig .leaveEdit) = (.ok (.report report), w₂) ∧
      w₂.scene.activeObject = some "Cube" := by
  have henter : ∃ answer w₁,
      (stageWorkspace (some "Cube")).run (.rig (.enterEdit 0)) = (.ok answer, w₁) ∧
        (w₁.runAll wandering).scene.hasObject "Cube" = true ∧
        (w₁.runAll wandering).scene.activeObject = none := ⟨_, _, rfl, rfl, rfl⟩
  obtain ⟨answer, w₁, henter, hthere, hnone⟩ := henter
  obtain ⟨report, w₂, hleave, hactive, -⟩ :=
    leaveEdit_restores_active _ 0 answer w₁ henter wandering
    (by decide) (by rintro name ⟨⟩; exact hthere)
  exact ⟨answer, w₁, report, w₂, henter, hnone, hleave, by rw [hactive]; rfl⟩

/-- With nothing active on entry, what became active during the edit is active still. -/
theorem leaveEdit_keeps_newly_active :
    ∃ answer w₁ report w₂,
      (stageWorkspace none).run (.rig (.enterEdit 0)) = (.ok answer, w₁) ∧
      (w₁.runAll [.scene (.setActiveObject "Rig")]).run (.rig .leaveEdit) =
        (.ok (.report report), w₂) ∧
      (stageWorkspace none).scene.activeObject = none ∧ w₂.scene.activeObject = some "Rig" :=
  ⟨_, _, _, _, rfl, rfl, rfl, rfl⟩

end Workspace

end PoseRig
