import PoseRig.Proofs.Network.Gate
import PoseRig.Workspace.Command

/-!
# Leaving that fails

An edit is left on its own, by toggling it, or before everything is built, and only the lack of the
rig's armature stops it. The fault comes after the snapshot has been taken out of the session, so it
ends the edit all the same, and what the snapshot held of the rig is gone with it. Without an edit a
fault changes nothing.
-/

set_option autoImplicit false

namespace PoseRig

variable {e : Fault}

namespace Edit

variable {rig : String}

theorem autoKey_restoreActive (former : Option String) (s : Scene) :
    (restoreActive former s).2.autoKey = s.autoKey := by
  unfold restoreActive
  cases former with
  | none => rfl
  | some name => dsimp only; split_ifs <;> rfl

theorem tryAssign_frame (s : Scene) (rig : String) (action : Option String) :
    (tryAssign s rig action).2.autoKey = s.autoKey ∧
      ∀ name, name ≠ rig → (tryAssign s rig action).2.objects.get? name = s.objects.get? name := by
  obtain ⟨-, hsame, -⟩ | ⟨o, actions, -, -, -, hassign⟩ := tryAssign_cases s rig action
  · rw [hsame]
    exact ⟨rfl, fun _ _ => rfl⟩
  · rw [hassign]
    refine ⟨rfl, ?_⟩
    intro name hne
    rw [Scene.setObject, Table.get?_insert, if_neg hne]

theorem autoKey_reassigned (rig : String) (taken : Snapshot) (s : Scene) :
    (reassigned rig taken s).autoKey = false :=
  (tryAssign_frame _ rig taken.activeAction).1.trans (autoKey_restoreActive taken.activeObject _)

theorem objects_reassigned (taken : Snapshot) (s : Scene) {name : String} (hne : name ≠ rig) :
    (reassigned rig taken s).objects.get? name = s.objects.get? name := by
  rw [reassigned, (tryAssign_frame _ rig taken.activeAction).2 name hne, objects_restoreActive]

end Edit

namespace Workspace

variable {w : Workspace} {c : Command} {taken : Snapshot}

/-- Whether a command leaves action edit: on its own, by toggling, or before it builds
everything. -/
def leaves (w : Workspace) : Command → Bool
  | .rig .leaveEdit => true
  | .rig (.toggleEdit _) | .rig .compileAll => w.session.isEditing
  | _ => false

theorem run_toggleEdit {index : Nat} (hs : w.session.isEditing = true) :
    w.run (.rig (.toggleEdit index)) = w.run (.rig .leaveEdit) := by
  simp only [run, onRig, Edit.toggle, hs, if_true]

theorem run_toggleEdit_idle {index : Nat} (hs : w.session.isEditing = false) :
    w.run (.rig (.toggleEdit index)) = w.run (.rig (.enterEdit index)) := by
  simp only [run, onRig, Edit.toggle, hs]
  cases Edit.enter w.prefs w.rig w.library index w.session w.scene <;> rfl

theorem run_leaves_ok {a : Armature} (hs : w.session = .editing taken) (hc : w.leaves c = true)
    (ha : w.scene.armature w.rig = .ok a) : ∃ answer, (w.run c).1 = .ok answer := by
  obtain ⟨left, start, a', hleave, ha'⟩ := Edit.leave_armature w.prefs taken ha
  have hrun : (w.run (.rig .leaveEdit)).1 = .ok (.report left) := by
    simp [run, onRig, settleEdit, hs, hleave, Except.map]
  cases c with
  | rig c =>
    cases c with
    | leaveEdit => exact ⟨_, hrun⟩
    | toggleEdit index => exact ⟨_, by rw [run_toggleEdit hc, hrun]⟩
    | compileAll =>
      obtain ⟨-, -, -, report, built, -, -, -, -, hbuild, -⟩ :=
        Network.rebuild_rounds w.prefs w.library ha'
      exact ⟨.report (left ++ report), by
        simp [run, onRig, settleEdit, Network.compileAll, Session.isEditing, hs, hleave, hbuild,
          Except.map]⟩
    | _ => cases hc
  | _ => cases hc

theorem run_leaves_fault (hs : w.session = .editing taken) (hc : w.leaves c = true)
    (ha : w.scene.armature w.rig = .error e) :
    w.run c =
      (.error e, { w with session := .idle, scene := Edit.reassigned w.rig taken w.scene }) := by
  have hleave := Edit.leave_of_no_armature w.prefs taken ha
  have hrun : w.run (.rig .leaveEdit) =
      (.error e, { w with session := .idle, scene := Edit.reassigned w.rig taken w.scene }) := by
    simp [run, onRig, settleEdit, hs, hleave, Except.map]
  cases c with
  | rig c =>
    cases c with
    | leaveEdit => exact hrun
    | toggleEdit index => rw [run_toggleEdit hc, hrun]
    | compileAll =>
      simp [run, onRig, settleEdit, Network.compileAll, Session.isEditing, hs, hleave, Except.map]
    | _ => cases hc
  | _ => cases hc

theorem run_leaves_idle (hs : w.session = .idle) (hc : w.leaves c = true) :
    w.run c = (.error .notEditing, w) := by
  obtain ⟨rig, prefs, scene, library, other, session⟩ := w
  subst hs
  cases c with
  | rig c =>
    cases c with
    | leaveEdit => rfl
    | _ => cases hc
  | _ => cases hc

/-- A leave that fails keeps everything as it was exactly when there is no edit to leave. During an
edit it fails because the rig has no armature; then the edit is over, auto-key is off, and what the
snapshot held is lost, while the other objects are as they were. -/
theorem fault_of_leaving (w : Workspace) (c : Command) (hc : w.leaves c = true) (e : Fault)
    (h : (w.run c).1 = .error e) :
    ((w.run c).2 = w ↔ w.session = .idle) ∧
    ∀ taken, w.session = .editing taken →
      w.scene.armature w.rig = .error e ∧
      ∃ s', (w.run c).2 = { w with session := .idle, scene := s' } ∧ s'.autoKey = false ∧
        ∀ name, name ≠ w.rig → s'.objects.get? name = w.scene.objects.get? name := by
  cases hs : w.session with
  | idle =>
    constructor
    · simp [run_leaves_idle hs hc]
    · rintro taken ⟨⟩
  | editing taken =>
    have hfault : w.scene.armature w.rig = .error e := by
      cases ha : w.scene.armature w.rig with
      | ok a =>
        obtain ⟨answer, hok⟩ := run_leaves_ok hs hc ha
        cases hok.symm.trans h
      | error e' =>
        rw [run_leaves_fault hs hc ha] at h
        cases h
        rfl
    have hrun := run_leaves_fault hs hc hfault
    constructor
    · rw [hrun]
      constructor
      · intro hsame
        rw [← hsame] at hs
        cases hs
      · rintro ⟨⟩
    · rintro taken' ⟨⟩
      exact ⟨hfault, _, by rw [hrun], Edit.autoKey_reassigned _ _ _,
        fun name hne => Edit.objects_reassigned taken w.scene hne⟩

def keyedWorkspace : Workspace where
  rig := "Rig"
  scene :=
    { objects := .ofList
        [("Rig", { kind := .armature, armature := some { bones := .ofList [("Jaw", {})] } })]
      activeObject := some "Rig"
      autoKey := true }
  library := { poses := [.ofName "Smile"] }

def bereft : Workspace :=
  keyedWorkspace.runAll [.rig (.enterEdit 0), .scene (.removeObject "Rig")]

theorem fault_of_leaving_bereft :
    ∃ taken w', bereft.session = .editing taken ∧ bereft.leaves (.rig .compileAll) = true ∧
      bereft.run (.rig .compileAll) = (.error (.objectNotFound "Rig"), w') ∧
      w'.session = .idle ∧ w' ≠ bereft := by
  have hediting : ∃ taken, bereft.session = .editing taken := ⟨_, rfl⟩
  obtain ⟨taken, hs⟩ := hediting
  have hrun : (bereft.run (.rig .compileAll)).1 = .error (.objectNotFound "Rig") := rfl
  obtain ⟨hkept, hlost⟩ := fault_of_leaving bereft (.rig .compileAll) rfl _ hrun
  obtain ⟨-, s', hleft, -, -⟩ := hlost taken hs
  refine ⟨taken, (bereft.run (.rig .compileAll)).2, hs, rfl, Prod.ext hrun rfl, by rw [hleft], ?_⟩
  intro hsame
  rw [hkept.mp hsame] at hs
  cases hs

/-- The snapshot knew that auto-key was on; after the fault neither the session nor the
scene does. -/
theorem leaveEdit_loses_snapshot :
    ∃ taken w', bereft.session = .editing taken ∧ taken.autoKey = true ∧
      bereft.run (.rig .leaveEdit) = (.error (.objectNotFound "Rig"), w') ∧
      w'.session = .idle ∧ bereft.scene.autoKey = true ∧ w'.scene.autoKey = false :=
  ⟨_, _, rfl, rfl, rfl, rfl, rfl, rfl⟩

end Workspace

end PoseRig
