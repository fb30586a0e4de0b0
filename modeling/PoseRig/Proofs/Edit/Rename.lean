import PoseRig.Proofs.Edit.Context
import PoseRig.Proofs.Pose.Library
import PoseRig.Proofs.Scene.ActionRefs

/-!
# Renaming actions during an edit

An action keeps its content under a name that changes. The objects, the constraints and the
poses follow the name, but the snapshot of an edit does not: leaving assigns what has the name
of entry by then.
-/

set_option autoImplicit false

namespace PoseRig

open Scene (SameContext)

namespace Scene

variable {s s' : Scene} {old new final rig : String}

theorem SameContext.renameAction (h : s.renameAction old new = .ok (final, s')) :
    SameContext s s' := by
  obtain ⟨-, -, rfl⟩ | ⟨a, -, -, rfl⟩ := renameAction_ok h
  · exact SameContext.refl _
  · refine ⟨?_, rfl, rfl⟩
    funext name
    rw [kind?, retargetActions, Table.get?_map, Option.map_map]
    rfl

theorem armature_retargetActions {a : Armature} (ha : s.armature rig = .ok a)
    (new : Option String) :
    (s.retargetActions old new).armature rig =
      .ok (a.mapBones fun _ b => retargetBone old new b) := by
  obtain ⟨o, ho, hoa⟩ := object_of_armature ha
  have hobject : (s.retargetActions old new).object rig = .ok (retargetObject old new o) := by
    rw [object_eq_ok, retargetActions, Table.get?_map, object_eq_ok.mp ho, Option.map_some]
  exact armature_of_object hobject (by rw [retargetObject, hoa, Option.map_some])

theorem armature_renameAction {a : Armature} (h : s.renameAction old new = .ok (final, s'))
    (ha : s.armature rig = .ok a) : ∃ a', s'.armature rig = .ok a' := by
  obtain ⟨-, -, rfl⟩ | ⟨b, -, -, rfl⟩ := renameAction_ok h
  · exact ⟨a, ha⟩
  · exact ⟨_, armature_retargetActions ha (some final)⟩

end Scene

theorem Object.activeAction_removeTemp (prefs : Preferences) (o : Object) :
    (o.removeTemp prefs).activeAction = o.activeAction :=
  activeAction_removeWhere o fun p => p.constraint?.any prefs.isTemp

namespace Edit

variable {prefs : Preferences} {rig : String} {taken : Snapshot} {s s' : Scene} {o : Object}
  {a : Armature} {action : Option String}

theorem hasErrors_tryAssign (ho : s.object rig = .ok o) :
    (tryAssign s rig action).1.hasErrors = false ↔ Assignable o.kind s.actions action := by
  obtain ⟨herror, -, hnot⟩ | ⟨o', actions, ho', ha, -, hassign⟩ := tryAssign_cases s rig action
  · rw [herror]
    exact iff_of_false Bool.noConfusion (hnot o ho)
  · obtain rfl := Except.ok.inj (ho.symm.trans ho')
    rw [hassign]
    exact iff_of_true rfl ha

theorem activeAction?_tryAssign (h : (tryAssign s rig action).1.hasErrors = false) :
    (tryAssign s rig action).2.activeAction? rig = action := by
  obtain ⟨herror, -, -⟩ | ⟨o, actions, -, -, -, hassign⟩ := tryAssign_cases s rig action
  · cases herror.symm.trans h
  · rw [hassign, Scene.activeAction?, Scene.setObject, Table.get?_insert, if_pos rfl]
    rfl

theorem boundFrom_tryAssign (ho : s.object rig = .ok o) (action : Option String) :
    BoundFrom o.kind s.actions (tryAssign s rig action).2.actions := by
  obtain ⟨-, hsame, -⟩ | ⟨o', actions, ho', -, hbound, hassign⟩ := tryAssign_cases s rig action
  · rw [hsame]
    exact BoundFrom.refl _ _
  · obtain rfl := Except.ok.inj (ho.symm.trans ho')
    rw [hassign]
    exact hbound

theorem boundFrom_enter {l : Library} {index : Nat} {session session' : Session} {report : Report}
    (ho : s.object rig = .ok o)
    (h : enter prefs rig l index session s = .ok (report, session', s')) :
    BoundFrom o.kind s.actions s'.actions := by
  obtain ⟨p, nested, o', a, -, -, ho', -, -, rfl⟩ := enter_eq_ok h
  obtain rfl := Except.ok.inj (ho.symm.trans ho')
  have hrested : (s.updateArmature rig (·.restBones)).object rig =
      .ok { o with armature := o.armature.map (·.restBones) } := by
    rw [Scene.updateArmature, Scene.updateObject_eq ho, Scene.object_setObject]
  exact boundFrom_tryAssign hrested p.action

theorem activeAction?_putBack (prefs : Preferences) (rig : String) (taken : Snapshot) (s : Scene) :
    (putBack prefs rig taken s).activeAction? rig = s.activeAction? rig := by
  have hplaced (s : Scene) (f : Armature → Armature) :
      (s.updateArmature rig f).activeAction? rig = s.activeAction? rig :=
    Scene.activeAction?_updateObject s rig fun _ => rfl
  have hcleared (s : Scene) :
      (s.updateObject rig (·.removeTemp prefs)).activeAction? rig = s.activeAction? rig :=
    Scene.activeAction?_updateObject s rig (Object.activeAction_removeTemp prefs)
  exact (hplaced _ _).trans ((hcleared _).trans (hplaced _ _))

theorem leave_in_place (prefs : Preferences) (ha : s.armature rig = .ok a)
    (hactive : s.activeObject = taken.activeObject) :
    ∃ report s', leave prefs rig (.editing taken) s = (.ok report, .idle, s') ∧
      report.hasErrors = (tryAssign { s with autoKey := false } rig
        taken.activeAction).1.hasErrors ∧
      s'.actions = (tryAssign { s with autoKey := false } rig taken.activeAction).2.actions ∧
      s'.activeAction? rig =
        (tryAssign { s with autoKey := false } rig taken.activeAction).2.activeAction? rig := by
  have hrestored : restoreActive taken.activeObject { s with autoKey := false } =
      ({}, { s with autoKey := false }) := restoreActive_same hactive
  refine ⟨_, _, leave_of_armature prefs taken ha, ?_, ?_, ?_⟩
  · rw [hrestored, Report.hasErrors_append, Report.hasErrors_info, Bool.or_false]
    rfl
  · show (reassigned rig taken s).actions = _
    rw [reassigned, hrestored]
  · rw [activeAction?_putBack, reassigned, hrestored]

end Edit

def Library.nameAfter (l : Library) (s : Scene) (index : Nat) (new name : String) : String :=
  match l.actionOf index, l.renameAction s index new with
  | .ok (_, old), .ok (final, _) => if name = old then final else name
  | _, _ => name

theorem Library.nameAfter_of_ok {l l' : Library} {s s' : Scene} {index : Nat} {new final : String}
    (h : l.renameAction s index new = .ok (final, s', l')) :
    ∃ old, s.renameAction old new = .ok (final, s') ∧
      ∀ name, l.nameAfter s index new name = if name = old then final else name := by
  obtain ⟨p, old, hold, hs, -⟩ := renameAction_ok h
  exact ⟨old, hs, fun name => by simp [nameAfter, hold, h]⟩

def Command.renamesAction : Command → Bool
  | .rig (.renameAction _ _) => true
  | _ => false

namespace Workspace

def nameAfter (w : Workspace) (name : String) : Command → String
  | .rig (.renameAction index new) => w.library.nameAfter w.scene index new name
  | _ => name

def nameAfterAll (w : Workspace) (name : String) : List Command → String
  | [] => name
  | c :: r => (w.run c).2.nameAfterAll (w.nameAfter name c) r

/-- An edit of the rig is under way, the same object is active as on entry, and an action of that
name has this content. -/
structure Follows (rig : String) (kind : ObjectKind) (taken : Snapshot) (name : String) (x : Action)
    (w : Workspace) : Prop where
  named : w.rig = rig
  session : w.session = .editing taken
  active : w.scene.activeObject = taken.activeObject
  ofKind : w.scene.kind? rig = some kind
  armature : ∃ a, w.scene.armature rig = .ok a
  action : w.scene.actions.get? name = some x

variable {rig name : String} {kind : ObjectKind} {taken : Snapshot} {x : Action} {w : Workspace}

theorem Follows.run (h : w.Follows rig kind taken name x) {c : Command}
    (hc : c.renamesAction = true) : (w.run c).2.Follows rig kind taken (w.nameAfter name c) x := by
  cases c with
  | rig c =>
    cases c with
    | renameAction index new =>
      cases hrename : w.library.renameAction w.scene index new with
      | error e =>
        have hname : w.library.nameAfter w.scene index new name = name := by
          simp [Library.nameAfter, hrename]
        simp only [Workspace.run, onRig, settleBoth, hrename, nameAfter, hname]
        exact h
      | ok renamed =>
        obtain ⟨final, s', l'⟩ := renamed
        obtain ⟨old, hs, hname⟩ := Library.nameAfter_of_ok hrename
        have hcontext := SameContext.renameAction hs
        obtain ⟨a, ha⟩ := h.armature
        simp only [Workspace.run, onRig, settleBoth, hrename, nameAfter, hname]
        constructor
        · exact h.named
        · exact h.session
        · exact hcontext.activeObject.trans h.active
        · exact (congrFun hcontext.kinds rig).trans h.ofKind
        · exact Scene.armature_renameAction hs ha
        · exact Scene.get?_renameAction hs h.action
    | _ => cases hc
  | _ => cases hc

theorem Follows.runAll (h : w.Follows rig kind taken name x) {cs : List Command}
    (hcs : ∀ c ∈ cs, c.renamesAction = true) :
    (w.runAll cs).Follows rig kind taken (w.nameAfterAll name cs) x := by
  induction cs generalizing w name with
  | nil => exact h
  | cons c r ih =>
    obtain ⟨hc, hr⟩ := List.forall_mem_cons.mp hcs
    exact ih (h.run hc) hr

theorem follows_enterEdit {w₁ : Workspace} {o : Object} {index : Nat} {answer : Answer}
    (ho : w.scene.object w.rig = .ok o) (hx : w.scene.actions.get? name = some x)
    (henter : w.run (.rig (.enterEdit index)) = (.ok answer, w₁)) :
    ∃ taken x₁, w₁.Follows w.rig o.kind taken name x₁ ∧ taken.activeAction = o.activeAction ∧
      { x₁ with root := x.root } = x ∧ BoundFrom o.kind w.scene.actions w₁.scene.actions := by
  obtain ⟨report, session, s₁, he, rfl⟩ := enterEdit_ok henter
  obtain ⟨p, -, o', a, -, -, ho', -, rfl, -⟩ := Edit.enter_eq_ok he
  obtain rfl := Except.ok.inj (ho.symm.trans ho')
  have hcontext := Edit.context_enter he
  have hbound := Edit.boundFrom_enter ho he
  obtain ⟨x₁, hx₁, hcontent⟩ := hbound.content hx
  refine ⟨Edit.snapshot w.scene o a p.name, x₁, ?_, rfl, hcontent, hbound⟩
  constructor
  · rfl
  · rfl
  · exact hcontext.activeObject
  · exact (congrFun hcontext.kinds w.rig).trans (Scene.kind?_of_object ho)
  · exact Edit.armature_enter he
  · exact hx₁

/-- Leaving goes by the name that the snapshot has, and keeps every action. -/
theorem Follows.leaveEdit (h : w.Follows rig kind taken name x) :
    ∃ report w₂, w.run (.rig .leaveEdit) = (.ok (.report report), w₂) ∧
      (∃ x', w₂.scene.actions.get? name = some x' ∧ { x' with root := x.root } = x) ∧
      (report.hasErrors = false ↔ Assignable kind w.scene.actions taken.activeAction) ∧
      (report.hasErrors = false → w₂.scene.activeAction? rig = taken.activeAction) := by
  obtain ⟨a, ha⟩ := h.armature
  obtain ⟨o, ho, -⟩ := Scene.object_of_armature ha
  obtain rfl := Option.some.inj ((Scene.kind?_of_object ho).symm.trans h.ofKind)
  obtain ⟨report, s', hleave, herrors, hactions, hactive⟩ := Edit.leave_in_place w.prefs ha h.active
  have ho' : ({ w.scene with autoKey := false } : Scene).object rig = .ok o := ho
  refine ⟨report, { w with session := .idle, scene := s' }, ?_, ?_, ?_, ?_⟩
  · simp only [Workspace.run, onRig, settleEdit, h.named, h.session, hleave]
    rfl
  · show ∃ x', s'.actions.get? name = some x' ∧ _
    rw [hactions]
    exact (Edit.boundFrom_tryAssign ho' taken.activeAction).content h.action
  · rw [herrors]
    exact Edit.hasErrors_tryAssign ho'
  · intro hfree
    rw [herrors] at hfree
    exact hactive.trans (Edit.activeAction?_tryAssign hfree)

/-- Whatever actions are renamed during an edit, leaving succeeds and the action that was active on
entry is there with its content, under its present name. But leaving goes by the name it had: it
reports an error exactly if the rig can have no action of that name by then, and it makes the action
of entry active again, without an error, exactly if that has its name of entry. -/
theorem leaveEdit_after_renaming (w : Workspace) (o : Object) (ho : w.scene.object w.rig = .ok o)
    (name : String) (hactive : o.activeAction = some name) (x : Action)
    (hx : w.scene.actions.get? name = some x) (hroot : x.root = none ∨ x.root = some o.kind)
    (index : Nat) (answer : Answer) (w₁ : Workspace)
    (henter : w.run (.rig (.enterEdit index)) = (.ok answer, w₁)) (cs : List Command)
    (hcs : ∀ c ∈ cs, c.renamesAction = true) :
    ∃ report w₂, (w₁.runAll cs).run (.rig .leaveEdit) = (.ok (.report report), w₂) ∧
      (∃ x', w₂.scene.actions.get? (w₁.nameAfterAll name cs) = some x' ∧
        { x' with root := x.root } = x) ∧
      (report.hasErrors = false ↔ Assignable o.kind (w₁.runAll cs).scene.actions (some name)) ∧
      (report.hasErrors = false ∧ w₂.scene.activeAction? w.rig = some (w₁.nameAfterAll name cs) ↔
        w₁.nameAfterAll name cs = name) := by
  obtain ⟨taken, x₁, hfollows, htaken, hcontent₁, hbound⟩ := follows_enterEdit ho hx henter
  obtain ⟨report, w₂, hleave, ⟨x', hx', hcontent'⟩, herrors, hplays⟩ :=
    (hfollows.runAll hcs).leaveEdit
  rw [htaken, hactive] at herrors hplays
  refine ⟨report, w₂, hleave, ⟨x', hx', ?_⟩, herrors, ?_⟩
  · rw [← hcontent₁, ← hcontent']
  constructor
  · rintro ⟨hfree, hplayed⟩
    exact Option.some.inj (hplayed.symm.trans (hplays hfree))
  · intro hname
    have hstart : Assignable o.kind w.scene.actions (some name) := by
      rintro other ⟨⟩
      exact ⟨x, hx, hroot⟩
    obtain ⟨y, hy, hrootable⟩ := hbound.assignable hstart name rfl
    obtain rfl := Option.some.inj (hfollows.action.symm.trans hy)
    have hfree : report.hasErrors = false := by
      apply herrors.mpr
      rintro other ⟨⟩
      exact ⟨x₁, hname ▸ (hfollows.runAll hcs).action, hrootable⟩
    exact ⟨hfree, by rw [hplays hfree, hname]⟩

def restingRig : Object where
  kind := .armature
  armature := some { bones := .ofList [("Jaw", {})] }
  animation := some { action := some "Idle" }

def restingWorkspace : Workspace where
  rig := "Rig"
  scene :=
    { objects := .ofList [("Rig", restingRig)]
      actions := .ofList [("Idle", { groups := ["Jaw"] }), ("Smile", {})]
      activeObject := some "Rig" }
  library :=
    { poses :=
        [{ Pose.ofName "Smile" with action := some "Smile" },
          { Pose.ofName "Rest" with action := some "Idle" }] }

def detour : List Command :=
  [.rig (.renameAction 1 "Smile"), .rig (.renameAction 0 "Grin"), .rig (.renameAction 2 "Idle"),
    .rig (.renameAction 1 "Idle")]

theorem leaveEdit_after_renaming_detour :
    ∃ answer w₁ report w₂, restingWorkspace.run (.rig (.enterEdit 0)) = (.ok answer, w₁) ∧
      w₁.nameAfterAll "Idle" (detour.take 3) = "Smile.001" ∧
      (w₁.runAll detour).run (.rig .leaveEdit) = (.ok (.report report), w₂) ∧
      report.hasErrors = false ∧ w₂.scene.activeAction? "Rig" = some "Idle" := by
  have henter : ∃ answer w₁, restingWorkspace.run (.rig (.enterEdit 0)) = (.ok answer, w₁) ∧
      w₁.nameAfterAll "Idle" (detour.take 3) = "Smile.001" ∧
      w₁.nameAfterAll "Idle" detour = "Idle" :=
    ⟨_, _, rfl, by decide +kernel, by decide +kernel⟩
  obtain ⟨answer, w₁, henter, haway, hback⟩ := henter
  obtain ⟨report, w₂, hleave, -, -, hplays⟩ :=
    leaveEdit_after_renaming restingWorkspace restingRig rfl
    "Idle" rfl { groups := ["Jaw"] } rfl (Or.inl rfl) 0 answer w₁ henter detour (by decide)
  rw [hback] at hplays
  obtain ⟨hfree, hactive⟩ := hplays.mpr rfl
  exact ⟨answer, w₁, report, w₂, henter, haway, hleave, hfree, hactive⟩

/-- Renamed once, the action of entry is there under its new name, but leaving does not find it: it
reports an error, and the rig still plays the action of the pose that was edited. -/
theorem renaming_loses_action :
    ∃ answer w₁ report w₂, restingWorkspace.run (.rig (.enterEdit 0)) = (.ok answer, w₁) ∧
      (w₁.runAll [.rig (.renameAction 1 "Calm")]).run (.rig .leaveEdit) =
        (.ok (.report report), w₂) ∧
      w₁.nameAfterAll "Idle" [.rig (.renameAction 1 "Calm")] = "Calm" ∧
      w₂.scene.actions.names = ["Smile", "Calm"] ∧
      report.hasErrors = true ∧ w₂.scene.activeAction? "Rig" = some "Smile" :=
  ⟨_, _, _, _, rfl, rfl, by decide +kernel, by decide +kernel, rfl, rfl⟩

end Workspace

end PoseRig
