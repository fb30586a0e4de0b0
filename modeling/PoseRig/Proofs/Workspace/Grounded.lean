import PoseRig.Proofs.Network.ActionRefs
import PoseRig.Proofs.Pose.Arrangement
import PoseRig.Workspace.Command

/-!
# Workspaces without dangling references to actions

A workspace is grounded when every action that a pose of its library, an object or a constraint
refers to is there. The commands on actions, on action edit, on the network and on the order of
poses keep it so: some put in references that were there before, others change the actions and all
references together.
-/

set_option autoImplicit false

namespace PoseRig

variable {names names' : List String} {l l' : Library} {index : Nat}

namespace Library

theorem actionRefs_subset (h : l.actionRefs ⊆ names)
    (hposes : ∀ p ∈ l'.poses, p ∈ l.poses ∨ p.action.toList ⊆ names) : l'.actionRefs ⊆ names := by
  rw [actionRefs_subset_iff] at h ⊢
  intro p hp
  rcases hposes p hp with hp | hp
  · exact h p hp
  · exact hp

theorem Extra.actionRefs_subset {p : Pose} (hextra : Extra index p l'.poses l.poses)
    (h : l.actionRefs ⊆ names) (hp : p.action.toList ⊆ names) : l'.actionRefs ⊆ names := by
  apply Library.actionRefs_subset h
  intro q hq
  rcases List.mem_cons.mp (hextra.perm.subset hq) with rfl | hq
  · exact Or.inr hp
  · exact Or.inl hq

theorem actionRefs_add (h : l.actionRefs ⊆ names) (prefs : Preferences) :
    (l.add prefs).actionRefs ⊆ names :=
  (extra_push l (.ofName prefs.defaultName)).actionRefs_subset h (List.nil_subset _)

theorem actionRefs_remove {p : Pose} (h : l.actionRefs ⊆ names)
    (hl : l.remove index = .ok (p, l')) : l'.actionRefs ⊆ names := by
  unfold remove at hl
  split at hl
  · cases hl
  · cases hl
    exact actionRefs_subset h fun p hp => Or.inl (List.mem_of_mem_eraseIdx hp)

theorem actionRefs_insertAfter {p : Pose} (h : l.actionRefs ⊆ names) (hp : p.action.toList ⊆ names)
    (index : Nat) : (l.insertAfter index p).actionRefs ⊆ names := by
  apply actionRefs_subset h
  intro q hq
  rcases List.eq_or_mem_of_mem_insertIdx hq with rfl | hq
  · exact Or.inr hp
  · exact Or.inl hq

theorem actionRefs_duplicate (h : l.actionRefs ⊆ names) (hl : l.duplicate index = .ok l') :
    l'.actionRefs ⊆ names := by
  unfold duplicate at hl
  split at hl
  · cases hl
  · rename_i p hp
    cases hl
    have hrefs := actionRefs_subset_iff.mp h p (mem_of_get hp)
    apply actionRefs_insertAfter h
    exact hrefs

theorem action_oppositeOf {s : Scene} {p : Pose} (hp : p.action.toList ⊆ s.actions.names)
    (l : Library) (rig : String) (prefs : Preferences) :
    (l.oppositeOf s rig prefs p).action.toList ⊆ s.actions.names := by
  intro name hname
  obtain ⟨own, hown, hopposite⟩ := Option.map_eq_some_iff.mp (Option.mem_toList.mp hname)
  cases hfound : s.oppositeAction? prefs own with
  | none =>
    rw [hfound, Option.getD_none] at hopposite
    exact hp (hopposite ▸ Option.mem_toList.mpr hown)
  | some other =>
    rw [hfound, Option.getD_some] at hopposite
    simp only [Scene.oppositeAction?, Preferences.opposite?, Option.ite_none_right_eq_some,
      Option.some.injEq] at hfound
    obtain ⟨⟨-, hthere⟩, rfl⟩ := hfound
    exact hopposite ▸ (s.actions.contains_iff _).mp hthere

theorem actionRefs_addOpposite {s : Scene} {rig : String} {prefs : Preferences}
    (h : l.actionRefs ⊆ s.actions.names) (hl : l.addOpposite s rig prefs index = .ok l') :
    l'.actionRefs ⊆ s.actions.names := by
  unfold addOpposite at hl
  split at hl
  · cases hl
  · rename_i p hp
    cases hl
    have hrefs := actionRefs_subset_iff.mp h p (mem_of_get hp)
    exact actionRefs_insertAfter h (action_oppositeOf hrefs l rig prefs) index

theorem actionRefs_move (h : l.actionRefs ⊆ names) (direction : MoveDirection) :
    (l.move direction).actionRefs ⊆ names := by
  by_cases hlt : l.index < l.size
  · obtain ⟨p, rest, hbefore, hafter⟩ := extra_move hlt direction
    apply actionRefs_subset h
    exact fun q hq => Or.inl ((hafter.perm.trans hbefore.perm.symm).subset hq)
  · rwa [move_of_not_lt hlt]

theorem actionRefs_setPose {p : Pose} (h : l.actionRefs ⊆ names) (hp : p.action.toList ⊆ names)
    (index : Nat) : (l.setPose index p).actionRefs ⊆ names := by
  apply actionRefs_subset h
  intro q hq
  rcases List.mem_or_eq_of_mem_set hq with hq | rfl
  · exact Or.inl hq
  · exact Or.inr hp

theorem actionRefs_retarget {old : String} {new : Option String} (h : l.actionRefs ⊆ names)
    (hrenaming : Scene.Grounded.Renaming old new names names') :
    (l.retarget old new).actionRefs ⊆ names' := by
  rw [actionRefs_subset_iff] at h ⊢
  intro p hp
  obtain ⟨q, hq, rfl⟩ := List.mem_map.mp hp
  have haction : (q.retarget old new).action = Scene.retarget old new q.action := by
    unfold Pose.retarget Scene.retarget
    split <;> rfl
  rw [haction]
  exact hrenaming.retarget (h q hq)

theorem actionRefs_setInfluence (l : Library) (name : String) (x : Scalar) :
    (l.setInfluence name x).actionRefs = l.actionRefs := by
  obtain ⟨poses, index, bonesIndex⟩ := l
  simp only [actionRefs, setInfluence]
  induction poses with
  | nil => rfl
  | cons p r ih =>
    rw [updateFirst]
    split
    · rfl
    · rw [List.filterMap_cons, List.filterMap_cons, ih]

theorem actionRefs_handOver (l : Library) (outputs : List DriverOutput) :
    (Network.handOver l outputs).2.actionRefs = l.actionRefs := by
  induction outputs generalizing l with
  | nil => rfl
  | cons o r ih =>
    unfold Network.handOver
    split
    · split
      · exact (ih _).trans (actionRefs_setInfluence l _ _)
      · exact ih l
    · exact ih l

theorem mem_of_actionOf {p : Pose} {name : String} (h : l.actionRefs ⊆ names)
    (hl : l.actionOf index = .ok (p, name)) : name ∈ names := by
  obtain ⟨hget, hname⟩ := actionOf_ok hl
  exact actionRefs_subset_iff.mp h p (mem_of_get hget) (by simp [hname])

end Library

section Actions

variable {s s' : Scene} {name : String}

/-- Scene and library refer to the actions of the same names. -/
def Library.GroundedWith (l : Library) (s : Scene) : Prop :=
  ∃ names, s.Grounded names ∧ l.actionRefs ⊆ names

namespace Library.GroundedWith

theorem addAction {p : Pose} (hs : s.Grounded names) (hl : l.actionRefs ⊆ names) (wanted : String)
    (a : Action) (index : Nat) (hp : p.action = some (s.addAction wanted a).1) :
    (l.setPose index p).GroundedWith (s.addAction wanted a).2 := by
  refine ⟨_, hs.addAction wanted a, ?_⟩
  apply actionRefs_setPose (List.Subset.trans hl (List.subset_append_left _ _))
  simp [hp]

theorem newAction {prefs : Preferences} (hs : s.Grounded names) (hl : l.actionRefs ⊆ names)
    (h : l.newAction s prefs index = .ok (name, s', l')) : l'.GroundedWith s' := by
  unfold Library.newAction at h
  split at h
  · cases h
  · cases h
    exact addAction hs hl _ _ index rfl

theorem duplicateAction (hs : s.Grounded names) (hl : l.actionRefs ⊆ names)
    (h : l.duplicateAction s index = .ok (name, s', l')) : l'.GroundedWith s' := by
  unfold Library.duplicateAction at h
  split at h
  · cases h
  · split at h
    · cases h
    · cases h
      exact addAction hs hl _ _ index rfl

theorem deleteAction (hs : s.Grounded names) (hl : l.actionRefs ⊆ names)
    (h : l.deleteAction s index = .ok (name, s', l')) : l'.GroundedWith s' := by
  unfold Library.deleteAction at h
  split at h
  · cases h
  · cases h
    obtain ⟨names', hs', hrenaming⟩ := hs.removeAction name
    exact ⟨names', hs', actionRefs_retarget hl hrenaming⟩

theorem renameAction {new : String} (hs : s.Grounded names) (hl : l.actionRefs ⊆ names)
    (h : l.renameAction s index new = .ok (name, s', l')) : l'.GroundedWith s' := by
  obtain ⟨p, old, hold, hrename, rfl⟩ := Library.renameAction_ok h
  obtain ⟨names', hs', hrenaming⟩ := hs.renameAction (mem_of_actionOf hl hold) hrename
  exact ⟨names', hs', actionRefs_retarget hl hrenaming⟩

end Library.GroundedWith

theorem Scene.Grounded.removeFlatCurves {report : Report} (hs : s.Grounded names)
    (h : l.removeFlatCurves s index = .ok (report, s')) : s'.Grounded names := by
  unfold Library.removeFlatCurves at h
  split at h
  · cases h
  · split at h
    · cases h
    · cases h
      exact hs.congr rfl (Table.names_update s.actions _ _)

end Actions

/-- The commands that manage actions, poses as they are listed, the network and action edit; what
these are given besides, preferences and a rig, can change in between. -/
def Command.manages : Command → Bool
  | .library .add | .library (.remove _) | .library .clear | .library (.duplicate _) => true
  | .library (.addOpposite _) | .library (.move _) => true
  | .scene (.assignAction _ _) => true
  | .rig (.newAction _) | .rig (.duplicateAction _) | .rig (.deleteAction _) => true
  | .rig (.renameAction _ _) | .rig (.removeFlatCurves _) => true
  | .rig (.compile _) | .rig .compileAll | .rig .purge | .rig (.setEnabled _) | .rig .evaluate =>
    true
  | .rig (.enterEdit _) | .rig .leaveEdit | .rig (.toggleEdit _) => true
  | .setPreferences _ | .setRig _ => true
  | _ => false

namespace Workspace

variable {α : Type} {w : Workspace}

/-- Every action that a pose, an object or a constraint refers to is there. -/
def Grounded (w : Workspace) : Prop :=
  ∀ name ∈ w.library.actionRefs ++ w.scene.actionRefs, w.scene.hasAction name = true

theorem grounded_iff :
    w.Grounded ↔
      w.scene.Grounded w.scene.actions.names ∧ w.library.actionRefs ⊆ w.scene.actions.names := by
  have hthere : ∀ name, w.scene.hasAction name = true ↔ name ∈ w.scene.actions.names :=
    w.scene.actions.contains_iff
  simp only [Grounded, hthere, List.forall_mem_append]
  constructor
  · rintro ⟨hl, hs⟩
    exact ⟨⟨rfl, hs⟩, hl⟩
  · rintro ⟨hs, hl⟩
    exact ⟨hl, hs.refs⟩

theorem grounded_iff_groundedWith : w.Grounded ↔ w.library.GroundedWith w.scene := by
  rw [grounded_iff]
  constructor
  · rintro ⟨hs, hl⟩
    exact ⟨_, hs, hl⟩
  · rintro ⟨names, hs, hl⟩
    obtain rfl := hs.actions
    exact ⟨hs, hl⟩

namespace Grounded

theorem withLibrary (h : w.Grounded) {l : Library} (hl : l.actionRefs ⊆ w.scene.actions.names) :
    ({ w with library := l } : Workspace).Grounded :=
  grounded_iff.mpr ⟨(grounded_iff.mp h).1, hl⟩

theorem withScene (h : w.Grounded) {s : Scene} (hs : s.Grounded w.scene.actions.names)
    (session : Session) : ({ w with scene := s, session := session } : Workspace).Grounded :=
  grounded_iff_groundedWith.mpr ⟨_, hs, (grounded_iff.mp h).2⟩

theorem settleLibrary (h : w.Grounded) (answer : α → Answer) {r : Except Fault (α × Library)}
    (hr : ∀ a l, r = .ok (a, l) → l.actionRefs ⊆ w.scene.actions.names) :
    (w.settleLibrary answer r).2.Grounded := by
  rcases r with e | ⟨a, l⟩
  · exact h
  · exact h.withLibrary (hr a l rfl)

theorem settleIndex (h : w.Grounded) {r : Except Fault Library}
    (hr : ∀ l, r = .ok l → l.actionRefs ⊆ w.scene.actions.names) :
    (w.settleIndex r).2.Grounded := by
  rcases r with e | l
  · exact h
  · exact h.withLibrary (hr l rfl)

theorem settleScene (h : w.Grounded) (answer : α → Answer) {r : Except Fault (α × Scene)}
    (hr : ∀ a s, r = .ok (a, s) → s.Grounded w.scene.actions.names) :
    (w.settleScene answer r).2.Grounded := by
  rcases r with e | ⟨a, s⟩
  · exact h
  · exact h.withScene (hr a s rfl) w.session

theorem settleBoth (h : w.Grounded) (answer : α → Answer) {r : Except Fault (α × Scene × Library)}
    (hr : ∀ a s l, r = .ok (a, s, l) → l.GroundedWith s) : (w.settleBoth answer r).2.Grounded := by
  rcases r with e | ⟨a, s, l⟩
  · exact h
  · exact grounded_iff_groundedWith.mpr (hr a s l rfl)

theorem onLibrary (h : w.Grounded) {c : LibraryCommand} (hc : (Command.library c).manages = true) :
    (w.onLibrary c).2.Grounded := by
  have hl := (grounded_iff.mp h).2
  cases c with
  | add => exact h.withLibrary (Library.actionRefs_add hl w.prefs)
  | remove index => exact h.settleLibrary _ fun p l => Library.actionRefs_remove hl
  | clear => exact h.withLibrary (List.nil_subset _)
  | duplicate index => exact h.settleIndex fun l => Library.actionRefs_duplicate hl
  | addOpposite index => exact h.settleIndex fun l => Library.actionRefs_addOpposite hl
  | move direction => exact h.withLibrary (Library.actionRefs_move hl direction)
  | _ => cases hc

theorem onScene (h : w.Grounded) {c : SceneCommand} (hc : (Command.scene c).manages = true) :
    (w.onScene c).2.Grounded := by
  cases c with
  | assignAction object action =>
    cases hs : w.scene.assignAction object action with
    | error e => simpa only [Workspace.onScene, settleSceneOnly, hs] using h
    | ok s =>
      simp only [Workspace.onScene, settleSceneOnly, hs]
      exact h.withScene ((grounded_iff.mp h).1.assignAction hs) w.session
  | _ => cases hc

theorem evaluate {outputs : List DriverOutput} {s : Scene} {l : Library} (h : w.Grounded)
    (hr : Network.evaluate w.rig w.library w.scene = .ok (outputs, s, l)) : l.GroundedWith s := by
  obtain ⟨hs, hl⟩ := grounded_iff.mp h
  unfold Network.evaluate at hr
  split at hr
  · cases hr
  · cases hr
    exact ⟨_, hs.evaluateDrivers ‹_›, (Library.actionRefs_handOver w.library _).symm ▸ hl⟩

theorem onRig (h : w.Grounded) {c : RigCommand} (hc : (Command.rig c).manages = true) :
    (w.onRig c).2.Grounded := by
  obtain ⟨hs, hl⟩ := grounded_iff.mp h
  cases c with
  | newAction index => exact h.settleBoth _ fun _ _ _ => Library.GroundedWith.newAction hs hl
  | duplicateAction index =>
    exact h.settleBoth _ fun _ _ _ => Library.GroundedWith.duplicateAction hs hl
  | deleteAction index => exact h.settleBoth _ fun _ _ _ => Library.GroundedWith.deleteAction hs hl
  | renameAction index name =>
    exact h.settleBoth _ fun _ _ _ => Library.GroundedWith.renameAction hs hl
  | removeFlatCurves index => exact h.settleScene _ fun _ _ => hs.removeFlatCurves
  | compile index =>
    cases hp : w.library.get index with
    | error e => simpa only [Workspace.onRig, hp] using h
    | ok p =>
      have hrefs := Library.actionRefs_subset_iff.mp hl p (Library.mem_of_get hp)
      simp only [Workspace.onRig, hp]
      exact h.settleScene _ fun _ _ => hs.compile hrefs
  | compileAll => exact h.withScene (hs.compileAll w.prefs w.rig w.session hl) _
  | evaluate => exact h.settleBoth _ fun _ _ _ => h.evaluate
  | purge => exact h.settleScene _ fun _ _ => hs.purge
  | setEnabled enabled => exact h.settleScene _ fun _ _ => hs.setEnabled
  | enterEdit index =>
    cases he : Edit.enter w.prefs w.rig w.library index w.session w.scene with
    | error e => simpa only [Workspace.onRig, he] using h
    | ok r =>
      obtain ⟨report, session, s⟩ := r
      simp only [Workspace.onRig, he]
      exact h.withScene (hs.enter hl he) session
  | leaveEdit => exact h.withScene (hs.leave w.prefs w.rig w.session) _
  | toggleEdit index => exact h.withScene (hs.toggle w.prefs w.rig index w.session hl) _
  | _ => cases hc

theorem run (h : w.Grounded) {c : Command} (hc : c.manages = true) : (w.run c).2.Grounded := by
  cases c with
  | library c => exact h.onLibrary hc
  | scene c => exact h.onScene hc
  | rig c => exact h.onRig hc
  | setPreferences prefs => exact h
  | setRig name => exact h
  | _ => cases hc

theorem runAll (h : w.Grounded) {cs : List Command} (hcs : ∀ c ∈ cs, c.manages = true) :
    (w.runAll cs).Grounded := by
  induction cs generalizing w with
  | nil => exact h
  | cons c r ih =>
    obtain ⟨hc, hr⟩ := List.forall_mem_cons.mp hcs
    exact ih (h.run hc) hr

end Grounded

/-- No run of these commands on a grounded workspace, failing ones included, ever refers to an
action that is not there. -/
theorem runAll_grounded (w : Workspace) (h : w.Grounded) (cs : List Command)
    (hcs : ∀ c ∈ cs, c.manages = true) (n : Nat) : (w.runAll (cs.take n)).Grounded :=
  h.runAll fun c hc => hcs c (List.mem_of_mem_take hc)

def idleRig : Object where
  kind := .armature
  armature := some
    { bones := .ofList [("Lip.L", { constraints := [{ name := "Sag", action := some "Idle" }] })] }
  animation := some { action := some "Idle" }

def idleWorkspace : Workspace where
  rig := "Rig"
  scene :=
    { objects := .ofList [("Rig", idleRig)]
      actions := .ofList [("Idle", {}), ("Smile.L", {}), ("Smile.R", {})] }
  library :=
    { poses :=
        [{ Pose.withBones (.ofName "Smile.L") ["Lip.L"] with action := some "Smile.L" },
          { Pose.ofName "Rest" with action := some "Idle" }] }

def recasting : List Command :=
  [.rig (.compile 0), .library (.addOpposite 0), .rig (.enterEdit 0), .rig (.renameAction 0 "Idle"),
    .rig (.deleteAction 2), .rig (.duplicateAction 2), .rig .leaveEdit,
    .scene (.assignAction "Rig" (some "Idle")), .rig (.newAction 2)]

theorem runAll_grounded_recasting :
    idleWorkspace.Grounded ∧ (∀ c ∈ recasting, c.manages = true) ∧
      (idleWorkspace.runAll (recasting.take 7)).Grounded ∧
      (idleWorkspace.runAll recasting).library.actionRefs = ["Idle.001", "Smile.R", "AP-Rest"] ∧
      (idleWorkspace.runAll recasting).scene.actions.names =
        ["Smile.R", "Idle.001", "AP-Rest"] := by
  have h : idleWorkspace.Grounded := by
    rw [Grounded]
    decide
  have hcs : ∀ c ∈ recasting, c.manages = true := by decide
  exact ⟨h, hcs, runAll_grounded idleWorkspace h recasting hcs 7, by decide +kernel,
    by decide +kernel⟩

end Workspace

end PoseRig
