import PoseRig.Proofs.Edit.Context
import PoseRig.Proofs.Edit.Leaving

/-!
# Pose mode over a run

Selecting, entering an edit and building keep pose mode to armatures, whether they succeed or not.
Leaving an edit goes to pose mode wherever another object is active than on entry, and then keeps to
armatures only if the object that is active afterwards is one.
-/

set_option autoImplicit false

namespace PoseRig

open Scene (SameContext)

variable {taken : Snapshot} {s s' : Scene}

namespace Edit

/-- Leaving would end in pose mode without an active armature: another object is active than on
entry, and what becomes active is no armature. -/
def Strands (taken : Snapshot) (s : Scene) : Prop :=
  ∃ name, taken.activeObject = some name ∧ s.activeObject ≠ some name ∧
    (activeAfter taken.activeObject s).bind s.kind? ≠ some .armature

theorem wellModed_restoreActive (h : s.WellModed) :
    (restoreActive taken.activeObject s).2.WellModed ↔ ¬ Strands taken s := by
  cases hformer : taken.activeObject with
  | none =>
    have hstays : ¬ Strands taken s := by
      rintro ⟨name, hname, -⟩
      cases hformer.symm.trans hname
    exact ⟨fun _ => hstays, fun _ => h⟩
  | some name =>
    by_cases hsame : s.activeObject = some name
    · have hstays : ¬ Strands taken s := by
        rintro ⟨other, hother, hne, -⟩
        exact hne (hsame.trans (hformer.symm.trans hother))
      rw [restoreActive_same hsame]
      exact ⟨fun _ => hstays, fun _ => h⟩
    · have hactive : (restoreActive (some name) s).2.activeKind? =
          (activeAfter (some name) s).bind s.kind? := by
        rw [Scene.activeKind?, activeObject_restoreActive, kind?_restoreActive]
      have hstrands :
          Strands taken s ↔ (activeAfter (some name) s).bind s.kind? ≠ some .armature := by
        simp [Strands, hformer, hsame]
      rw [Scene.WellModed, mode_restoreActive hsame, hactive, hstrands, not_not]
      exact ⟨fun hpose => hpose rfl, fun harmature _ => harmature⟩

theorem wellModed_leave (prefs : Preferences) (rig : String) (h : s.WellModed) :
    (leave prefs rig (.editing taken) s).2.2.WellModed ↔ ¬ Strands taken s := by
  have hkeyless : SameContext s { s with autoKey := false } := ⟨rfl, rfl, rfl⟩
  rw [(context_leave prefs rig taken s).wellModed_iff]
  exact wellModed_restoreActive (hkeyless.wellModed_iff.mpr h)

end Edit

theorem Network.context_compileAll (prefs : Preferences) (rig : String) (l : Library)
    (session : Session) (s : Scene) :
    SameContext (Edit.leave prefs rig session s).2.2 (compileAll prefs rig l session s).2.2 :=
  compileAll_preserves prefs rig l session (fun s hs => hs.trans (context_rebuild prefs rig l s))
    (SameContext.refl _)

/-- The commands that select what is active, edit and build, and those that change no scene. -/
def Command.navigates : Command → Bool
  | .scene (.switchActiveObject _) | .rig (.selectTargetBone _) => true
  | .rig (.enterEdit _) | .rig .leaveEdit | .rig (.toggleEdit _) | .rig .compileAll => true
  | .library _ | .copyTo _ | .swapLibraries | .setPreferences _ | .setRig _ => true
  | _ => false

namespace Workspace

variable {w : Workspace} {c : Command}

/-- The command leaves an edit in a way that strands pose mode. -/
def Strands (w : Workspace) (c : Command) : Prop :=
  w.leaves c = true ∧ ∃ taken, w.session = .editing taken ∧ Edit.Strands taken w.scene

theorem not_strands (h : w.leaves c = false) : ¬ w.Strands c := by
  rintro ⟨hleaves, -⟩
  cases h.symm.trans hleaves

theorem scene_onLibrary (w : Workspace) (c : LibraryCommand) :
    (w.onLibrary c).2.scene = w.scene := by
  have hsettle {α : Type} (answer : α → Answer) (r : Except Fault (α × Library)) :
      (w.settleLibrary answer r).2.scene = w.scene := by
    rcases r with e | r <;> rfl
  have hindex (r : Except Fault Library) : (w.settleIndex r).2.scene = w.scene := by
    rcases r with e | l <;> rfl
  cases c <;> first | rfl | exact hsettle _ _ | exact hindex _

theorem wellModed_enterEdit (h : w.scene.WellModed) (index : Nat) :
    (w.run (.rig (.enterEdit index))).2.scene.WellModed := by
  cases he : Edit.enter w.prefs w.rig w.library index w.session w.scene with
  | error e => simpa only [run, onRig, he] using h
  | ok r =>
    simp only [run, onRig, he]
    exact (Edit.context_enter he).wellModed_iff.mpr h

theorem strands_iff (hs : w.session = .editing taken) (hc : w.leaves c = true) :
    w.Strands c ↔ Edit.Strands taken w.scene := by
  constructor
  · rintro ⟨-, other, hother, hstrands⟩
    obtain rfl := Session.editing.inj (hs.symm.trans hother)
    exact hstrands
  · exact fun hstrands => ⟨hc, taken, hs, hstrands⟩

theorem wellModed_of_leaving (h : w.scene.WellModed)
    (hs' : SameContext (Edit.leave w.prefs w.rig w.session w.scene).2.2 s')
    (hc : w.session.isEditing = true → w.leaves c = true) : s'.WellModed ↔ ¬ w.Strands c := by
  rw [hs'.wellModed_iff]
  cases hs : w.session with
  | idle =>
    have hstays : ¬ w.Strands c := by
      rintro ⟨-, taken, hediting, -⟩
      cases hs.symm.trans hediting
    exact ⟨fun _ => hstays, fun _ => h⟩
  | editing taken =>
    rw [strands_iff hs (hc (by rw [hs]; rfl))]
    exact Edit.wellModed_leave w.prefs w.rig h

theorem wellModed_run (h : w.scene.WellModed) (hc : c.navigates = true) :
    (w.run c).2.scene.WellModed ↔ ¬ w.Strands c := by
  have hunmoved {s' : Scene} (hs' : s'.WellModed) (hleaves : w.leaves c = false) :
      s'.WellModed ↔ ¬ w.Strands c := ⟨fun _ => not_strands hleaves, fun _ => hs'⟩
  cases c with
  | library c => exact hunmoved (by rwa [run, scene_onLibrary]) rfl
  | scene c =>
    cases c with
    | switchActiveObject name => exact hunmoved (h.switchActiveObject name) rfl
    | _ => cases hc
  | rig c =>
    cases c with
    | selectTargetBone index => exact hunmoved (h.selectTargetBone w.library index) rfl
    | enterEdit index => exact hunmoved (wellModed_enterEdit h index) rfl
    | leaveEdit => exact wellModed_of_leaving h (SameContext.refl _) fun _ => rfl
    | toggleEdit index =>
      cases hs : w.session.isEditing with
      | false =>
        rw [run_toggleEdit_idle hs]
        exact hunmoved (wellModed_enterEdit h index) hs
      | true =>
        rw [run_toggleEdit hs]
        exact wellModed_of_leaving h (SameContext.refl _) id
    | compileAll =>
      exact wellModed_of_leaving h
        (Network.context_compileAll w.prefs w.rig w.library w.session w.scene) id
    | _ => cases hc
  | copyTo mode => exact hunmoved h rfl
  | swapLibraries => exact hunmoved h rfl
  | setPreferences prefs => exact hunmoved h rfl
  | setRig name => exact hunmoved h rfl

/-- Every scene that a run of such commands reaches from a well-moded one is well-moded, failing
commands included, exactly when it never leaves an edit in which another object is active than on
entry and the one that becomes active, or stays so where that of entry is gone, is no armature. -/
theorem runAll_wellModed_iff (w : Workspace) (h : w.scene.WellModed) (cs : List Command)
    (hcs : ∀ c ∈ cs, c.navigates = true) :
    (∀ n, (w.runAll (cs.take n)).scene.WellModed) ↔
      ∀ n c, cs[n]? = some c → ¬ (w.runAll (cs.take n)).Strands c := by
  induction cs generalizing w with
  | nil => simpa [runAll] using h
  | cons c r ih =>
    obtain ⟨hc, hr⟩ := List.forall_mem_cons.mp hcs
    have hhead := wellModed_run h hc
    have hleft : (∀ n, (w.runAll ((c :: r).take n)).scene.WellModed) ↔
        ∀ n, ((w.run c).2.runAll (r.take n)).scene.WellModed := by
      rw [← Nat.and_forall_add_one]
      exact and_iff_right h
    have hright : (∀ n d, (c :: r)[n]? = some d → ¬ (w.runAll ((c :: r).take n)).Strands d) ↔
        ¬ w.Strands c ∧ ∀ n d, r[n]? = some d → ¬ ((w.run c).2.runAll (r.take n)).Strands d := by
      rw [← Nat.and_forall_add_one]
      simp [runAll]
    rw [hleft, hright, ← hhead]
    constructor
    · intro hall
      exact ⟨hall 0, (ih _ (hall 0) hr).mp hall⟩
    · rintro ⟨hnext, hrest⟩
      exact (ih _ hnext hr).mpr hrest

def returning : List Command :=
  [.scene (.switchActiveObject "Rig"), .rig (.enterEdit 0), .scene (.switchActiveObject "Cube"),
    .scene (.switchActiveObject "Lamp"), .rig (.toggleEdit 0), .rig .compileAll]

theorem runAll_wellModed_returning :
    (∀ n, ((stageWorkspace (some "Cube")).runAll (returning.take n)).scene.WellModed) ∧
      ((stageWorkspace (some "Cube")).runAll returning).scene.mode = .pose := by
  refine ⟨(runAll_wellModed_iff (stageWorkspace (some "Cube")) (by decide) returning
    (by decide)).mpr ?_, rfl⟩
  intro n c hc
  rintro ⟨hleaves, taken, hs, name, hname, -, hkind⟩
  match n, hc with
  | 0, rfl | 1, rfl | 2, rfl | 3, rfl => cases hleaves
  | 4, rfl =>
    -- the object that was active on entry is the rig
    cases hs
    cases hname
    exact hkind rfl
  | 5, rfl => cases hs

/-- A mesh that was active on entry is in pose mode after leaving from the rig. -/
theorem leaveEdit_strands_cube :
    (stageWorkspace (some "Cube")).scene.WellModed ∧
      ∃ cs, (∀ c ∈ cs, c.navigates = true) ∧
        ((stageWorkspace (some "Cube")).runAll cs).scene.mode = .pose ∧
        ((stageWorkspace (some "Cube")).runAll cs).scene.activeKind? = some .mesh ∧
        ¬ ((stageWorkspace (some "Cube")).runAll cs).scene.WellModed :=
  ⟨by decide, [.rig (.enterEdit 0), .scene (.switchActiveObject "Rig"), .rig .leaveEdit],
    by decide, rfl, rfl, by decide +kernel⟩

end Workspace

end PoseRig
