import PoseRig.Proofs.Edit.Settle

/-!
# The scene while an action is edited

While an action is being edited the scene differs from the one on entry in the rig object alone, in
a way that settling takes back, and in actions that have become bound. Entering makes it so, and
leaving settles the rig.
-/

set_option autoImplicit false

namespace PoseRig

namespace Edit

variable {prefs : Preferences} {rig : String} {taken : Snapshot} {s s₀ : Scene} {o : Object}
  {a : Armature}

theorem restoreActive_same {former : Option String} (h : s.activeObject = former) :
    restoreActive former s = ({}, s) := by
  cases former with
  | none => rfl
  | some name => simp [restoreActive, h]

theorem leave_ok (ho : s.object rig = .ok o) (hoa : o.armature.isSome)
    (hactive : s.activeObject = taken.activeObject)
    (haction : Assignable o.kind s.actions taken.activeAction) :
    ∃ report actions, BoundFrom o.kind s.actions actions ∧
      leave prefs rig (.editing taken) s = (.ok report, .idle,
        { s with actions := actions, autoKey := taken.autoKey }.setObject rig
          (o.settle prefs taken)) := by
  obtain ⟨a, ha⟩ := Option.isSome_iff_exists.mp hoa
  have ho' : ({ s with autoKey := false } : Scene).object rig = .ok o := ho
  obtain ⟨s₁, h₁⟩ := Scene.assignAction_of_assignable ho' haction
  obtain ⟨actions, hbound, rfl⟩ := Scene.assignAction_ok ho' h₁
  have hrestored : restoreActive taken.activeObject { s with autoKey := false } =
      ({}, { s with autoKey := false }) := restoreActive_same hactive
  have harmature : (Scene.setObject { s with autoKey := false, actions := actions } rig
      (o.setActiveAction taken.activeAction)).armature rig = .ok a :=
    Scene.armature_of_object (Scene.object_setObject _ _ _) ha
  refine ⟨{} ++ {} ++ .info ("action edit disabled for '" ++ taken.pose ++ "'"),
    actions, hbound, ?_⟩
  simp only [leave, hrestored, tryAssign, h₁, harmature, Scene.updateArmature,
    Scene.updateObject_setObject]
  rw [← Object.restore_eq_settle prefs taken o]
  rfl

theorem tryAssign_cases (s : Scene) (rig : String) (action : Option String) :
    ((tryAssign s rig action).1.hasErrors = true ∧ (tryAssign s rig action).2 = s ∧
        ∀ o, s.object rig = .ok o → ¬ Assignable o.kind s.actions action) ∨
      ∃ o actions, s.object rig = .ok o ∧ Assignable o.kind s.actions action ∧
        BoundFrom o.kind s.actions actions ∧
        tryAssign s rig action =
          ({}, { s with actions := actions }.setObject rig (o.setActiveAction action)) := by
  cases h : s.assignAction rig action with
  | error e =>
    left
    refine ⟨by simp [tryAssign, h], by simp [tryAssign, h], ?_⟩
    intro o ho ha
    obtain ⟨s', hok⟩ := Scene.assignAction_of_assignable ho ha
    cases h.symm.trans hok
  | ok s' =>
    right
    cases ho : s.object rig with
    | error e => simp [Scene.assignAction, ho] at h
    | ok o =>
      obtain ⟨actions, hbound, rfl⟩ := Scene.assignAction_ok ho h
      exact ⟨o, actions, rfl, Scene.assignable_of_assignAction ho h, hbound,
        by simp only [tryAssign, h]⟩

theorem tryAssign_ok (ho : s.object rig = .ok o) (action : Option String) :
    ∃ actions o', BoundFrom o.kind s.actions actions ∧
      o'.settle prefs taken = o.settle prefs taken ∧
      (tryAssign s rig action).2 = { s with actions := actions }.setObject rig o' := by
  obtain ⟨-, hsame, -⟩ | ⟨o', actions, ho', -, hbound, hassign⟩ := tryAssign_cases s rig action
  · exact ⟨s.actions, o, BoundFrom.refl _ _, rfl, by rw [hsame, Scene.setObject_self ho]⟩
  · obtain rfl := Except.ok.inj (ho.symm.trans ho')
    exact ⟨actions, o.setActiveAction action, hbound, rfl, by rw [hassign]⟩

theorem armature_tryAssign (s : Scene) (rig : String) (action : Option String) :
    (tryAssign s rig action).2.armature rig = s.armature rig := by
  obtain ⟨-, hsame, -⟩ | ⟨o, actions, ho, -, -, hassign⟩ := tryAssign_cases s rig action
  · rw [hsame]
  · rw [hassign, Scene.armature, Scene.object_setObject, Scene.armature, ho]
    rfl

theorem objects_restoreActive (former : Option String) (s : Scene) :
    (restoreActive former s).2.objects = s.objects := by
  unfold restoreActive
  cases former with
  | none => rfl
  | some name => dsimp only; split_ifs <;> rfl

theorem armature_removeTemp (prefs : Preferences) (ha : s.armature rig = .ok a) :
    (s.updateObject rig (·.removeTemp prefs)).armature rig =
      .ok (a.mapBones fun _ b => b.removeConstraints prefs.isTemp) := by
  obtain ⟨o, ho, hoa⟩ := Scene.object_of_armature ha
  rw [Scene.updateObject_eq ho]
  apply Scene.armature_of_object (Scene.object_setObject _ _ _)
  simp only [Object.removeTemp, hoa, Option.map_some]

def reassigned (rig : String) (taken : Snapshot) (s : Scene) : Scene :=
  (tryAssign (restoreActive taken.activeObject { s with autoKey := false }).2 rig
    taken.activeAction).2

def putBack (prefs : Preferences) (rig : String) (taken : Snapshot) (s : Scene) : Scene :=
  { ((s.updateArmature rig (·.restore taken)).updateObject rig (·.removeTemp prefs)).updateArmature
      rig (fun a => a.mapBones fun _ b => b.setEnabled prefs true) with autoKey := taken.autoKey }

theorem armature_reassigned (rig : String) (taken : Snapshot) (s : Scene) :
    (reassigned rig taken s).armature rig = s.armature rig :=
  (armature_tryAssign _ rig taken.activeAction).trans
    (Scene.armature_congr
      (objects_restoreActive taken.activeObject { s with autoKey := false }) rig)

theorem armature_putBack (prefs : Preferences) (taken : Snapshot) (ha : s.armature rig = .ok a) :
    ∃ a', (putBack prefs rig taken s).armature rig = .ok a' := by
  have hplaced := Scene.armature_updateArmature ha (·.restore taken)
  have hcleared := armature_removeTemp prefs hplaced
  exact ⟨_, Scene.armature_updateArmature hcleared fun a => a.mapBones fun _ b =>
    b.setEnabled prefs true⟩

theorem leave_of_armature (prefs : Preferences) (taken : Snapshot) (ha : s.armature rig = .ok a) :
    leave prefs rig (.editing taken) s =
      (.ok ((restoreActive taken.activeObject { s with autoKey := false }).1 ++
          (tryAssign (restoreActive taken.activeObject { s with autoKey := false }).2 rig
            taken.activeAction).1 ++
          .info ("action edit disabled for '" ++ taken.pose ++ "'")),
        .idle, putBack prefs rig taken (reassigned rig taken s)) := by
  have hfound := (armature_reassigned rig taken s).trans ha
  rw [reassigned] at hfound
  simp only [leave, hfound]
  rfl

theorem leave_of_no_armature {e : Fault} (prefs : Preferences) (taken : Snapshot)
    (h : s.armature rig = .error e) :
    leave prefs rig (.editing taken) s = (.error e, .idle, reassigned rig taken s) := by
  have hgone := (armature_reassigned rig taken s).trans h
  rw [reassigned] at hgone
  simp only [leave, hgone]
  rfl

/-- Leaving succeeds on every rig with an armature, whatever was active or assigned on entry. -/
theorem leave_armature (prefs : Preferences) (taken : Snapshot) (ha : s.armature rig = .ok a) :
    ∃ report s' a', leave prefs rig (.editing taken) s = (.ok report, .idle, s') ∧
      s'.armature rig = .ok a' := by
  obtain ⟨a', ha'⟩ := armature_putBack prefs taken ((armature_reassigned rig taken s).trans ha)
  exact ⟨_, _, a', leave_of_armature prefs taken ha, ha'⟩

theorem enter_eq_ok {l : Library} {index : Nat} {session session' : Session} {report : Report}
    {s' : Scene} (h : enter prefs rig l index session s = .ok (report, session', s')) :
    ∃ (p : Pose) (nested : List Pose) (o : Object) (a : Armature),
      l.get index = .ok p ∧ shownWith l p = .ok nested ∧
      s.object rig = .ok o ∧ o.armature = some a ∧
      session' = .editing (snapshot s o a p.name) ∧
      s' = { (tryAssign (s.updateArmature rig (·.restBones)) rig p.action).2 with
        autoKey := true }.updateArmature rig fun _ =>
          (placeTemp prefs nested (a.restBones.mapBones fun _ b =>
            b.setEnabled prefs false)).2 := by
  cases hediting : session.isEditing with
  | true => simp [enter, hediting] at h
  | false =>
    cases hp : l.get index with
    | error e => simp [enter, hediting, hp] at h
    | ok p =>
      cases hn : shownWith l p with
      | error e => simp [enter, hediting, hp, hn] at h
      | ok nested =>
        cases ha : s.armature rig with
        | error e => cases ho : s.object rig <;> simp [enter, hediting, hp, hn, ho, ha] at h
        | ok a =>
          obtain ⟨o, ho, hoa⟩ := Scene.object_of_armature ha
          simp only [enter, hediting, hp, hn, ho, ha, Bool.false_eq_true, if_false,
            Except.ok.injEq, Prod.mk.injEq] at h
          exact ⟨p, nested, o, a, rfl, hn, ho, hoa, h.2.1.symm, h.2.2.symm⟩

/-- What holds of the scene while an action is edited: leaving would make the rig object what it
was, and the rest of the scene is as it was but for bound actions and the auto-key flag. -/
structure Suspended (prefs : Preferences) (rig : String) (taken : Snapshot) (s₀ : Scene)
    (o : Object) (s : Scene) : Prop where
  object : ∃ o', s.object rig = .ok o' ∧ o'.settle prefs taken = o
  rest : s.setObject rig o = { s₀ with actions := s.actions, autoKey := s.autoKey }
  actions : BoundFrom o.kind s₀.actions s.actions

namespace Suspended

theorem setAutoKey (h : Suspended prefs rig taken s₀ o s) (value : Bool) :
    Suspended prefs rig taken s₀ o { s with autoKey := value } := by
  constructor
  · exact h.object
  · exact congrArg (fun t : Scene => { t with autoKey := value }) h.rest
  · exact h.actions

theorem updateObject {f : Object → Object} (h : Suspended prefs rig taken s₀ o s)
    (hf : ∀ o', s.object rig = .ok o' → (f o').settle prefs taken = o'.settle prefs taken) :
    Suspended prefs rig taken s₀ o (s.updateObject rig f) := by
  obtain ⟨o', ho', hsettle⟩ := h.object
  rw [Scene.updateObject_eq ho']
  constructor
  · exact ⟨f o', Scene.object_setObject _ _ _, (hf o' ho').trans hsettle⟩
  · rw [Scene.setObject_setObject]
    exact h.rest
  · exact h.actions

theorem updateArmature {f : Armature → Armature} (h : Suspended prefs rig taken s₀ o s)
    (hf : ∀ a, s.armature rig = .ok a →
      (f a).settle prefs taken = a.settle prefs taken) :
    Suspended prefs rig taken s₀ o (s.updateArmature rig f) :=
  h.updateObject fun o' ho' => Object.settle_armature prefs taken o' fun a ha =>
    hf a (Scene.armature_of_object ho' ha)

theorem settle_armature (h : Suspended prefs rig taken s₀ o s) (ha : o.armature = some a)
    {b : Armature} (hb : s.armature rig = .ok b) : b.settle prefs taken = a := by
  obtain ⟨o', ho', hsettle⟩ := h.object
  obtain ⟨o'', ho'', hb'⟩ := Scene.object_of_armature hb
  obtain rfl := Except.ok.inj (ho'.symm.trans ho'')
  have harmature : o'.armature.map (Armature.settle prefs taken) = some a := by
    rw [← ha, ← hsettle]
    rfl
  rw [hb', Option.map_some] at harmature
  exact Option.some.inj harmature

theorem tryAssign (h : Suspended prefs rig taken s₀ o s) (action : Option String) :
    Suspended prefs rig taken s₀ o (Edit.tryAssign s rig action).2 := by
  obtain ⟨o', ho', hsettle⟩ := h.object
  obtain ⟨actions, o'', hbound, hsettle', hscene⟩ := tryAssign_ok ho' action
  have hkind : o'.kind = o.kind := by
    rw [← hsettle]
    rfl
  rw [hscene]
  constructor
  · exact ⟨o'', Scene.object_setObject _ _ _, hsettle'.trans hsettle⟩
  · rw [Scene.setObject_setObject]
    exact congrArg (fun t : Scene => { t with actions := actions }) h.rest
  · rw [hkind] at hbound
    exact h.actions.trans hbound

end Suspended

theorem suspended_enter {l : Library} {index : Nat} {session session' : Session} {report : Report}
    {s' : Scene} {d : Animation} (hdot : '.' ∉ prefs.tempMarker.toList)
    (ho : s.object rig = .ok o) (hs : Settled prefs s.actions o a d)
    (h : enter prefs rig l index session s = .ok (report, session', s')) :
    ∃ pose, session' = .editing (snapshot s o a pose) ∧
      Suspended prefs rig (snapshot s o a pose) s o s' := by
  obtain ⟨p, nested, o₁, a₁, -, -, ho₁, ha₁, hsession, hscene⟩ := enter_eq_ok h
  obtain rfl := Except.ok.inj (ho.symm.trans ho₁)
  obtain rfl := Option.some.inj (hs.armature.symm.trans ha₁)
  exists p.name
  constructor
  · exact hsession
  have hstart : Suspended prefs rig (snapshot s o a p.name) s o s :=
    ⟨⟨o, ho, settle_self hs p.name⟩, Scene.setObject_self ho, BoundFrom.refl _ _⟩
  have harmature := Scene.armature_of_object ho hs.armature
  have hrest : a.restBones.settle prefs (snapshot s o a p.name) =
      a.settle prefs (snapshot s o a p.name) := by
    apply Armature.settle_mapBones
    intro n bone hn
    apply Bone.settle_transform
    simp [snapshot, Table.get?_map, hn]
  have hshown : (placeTemp prefs nested (a.restBones.mapBones fun _ b =>
      b.setEnabled prefs false)).2.settle prefs (snapshot s o a p.name) = a := by
    rw [Armature.settle_placeTemp _ _ hdot, Armature.settle_mapBones _ _ _ _ fun n b _ =>
      Bone.settle_setEnabled _ _ n b false, hrest]
    exact hstart.settle_armature hs.armature harmature
  have hrested : Suspended prefs rig (snapshot s o a p.name) s o
      (s.updateArmature rig (·.restBones)) := by
    apply hstart.updateArmature
    intro b hb
    obtain rfl := Except.ok.inj (harmature.symm.trans hb)
    exact hrest
  have hassigned := (hrested.tryAssign p.action).setAutoKey true
  rw [hscene]
  exact hassigned.updateArmature fun b hb =>
    hshown.trans (hassigned.settle_armature hs.armature hb).symm

end Edit

end PoseRig
