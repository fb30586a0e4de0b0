import PoseRig.Network.Build
import PoseRig.Proofs.Edit.Suspend
import PoseRig.Proofs.Network.Compile
import PoseRig.Proofs.Pose.Library
import PoseRig.Proofs.Scene.ActionRefs

/-!
# References to actions in the network

Compiling poses and entering action edit put in constraints that refer to the actions of poses. So
where the poses refer to actions that there are, the network keeps the scene grounded, also when it
fails half way; purging, switching and evaluating put in no reference.
-/

set_option autoImplicit false

namespace PoseRig

variable {names : List String} {prefs : Preferences} {rig : String} {l : Library} {p : Pose}
  {s s' : Scene} {a : Armature} {report : Report}

def Library.actionRefs (l : Library) : List String := l.poses.filterMap (·.action)

namespace Library

theorem actionRefs_subset_iff :
    l.actionRefs ⊆ names ↔ ∀ p ∈ l.poses, p.action.toList ⊆ names := by
  constructor
  · intro h p hp name hname
    exact h (List.mem_filterMap.mpr ⟨p, hp, Option.mem_toList.mp hname⟩)
  · intro h name hname
    obtain ⟨p, hp, haction⟩ := List.mem_filterMap.mp hname
    exact h p hp (Option.mem_toList.mpr haction)

theorem addFound_subset {found : List Pose} (hfound : found ⊆ l.poses) (hp : p ∈ l.poses) :
    addFound found p ⊆ l.poses := by
  unfold addFound
  split
  · exact hfound
  · exact List.append_subset.mpr ⟨hfound, by simpa using hp⟩

theorem nestedFrom_subset {level next : List (String × List String)} {found poses : List Pose}
    (hfound : found ⊆ l.poses) (h : l.nestedFrom level next found = .ok poses) :
    poses ⊆ l.poses := by
  fun_induction l.nestedFrom level next found with
  | case1 found => exact Except.ok.inj h ▸ hfound
  | case2 found g next ih =>
    rw [List.unattach_reverse, List.unattach_attach] at ih
    exact ih hfound h
  | case3 next found part ancestors rest hpart => cases h
  | case4 next found part ancestors rest hpart hnone ih => exact ih hfound h
  | case5 next found part ancestors rest hpart p hp hkind ih =>
    exact ih (addFound_subset hfound (mem_of_part? hp)) h
  | case6 next found part ancestors rest hpart p hp hkind path ih => exact ih hfound h

theorem shownWith_subset {nested : List Pose} (h : Edit.shownWith l p = .ok nested) :
    nested ⊆ l.poses := by
  unfold Edit.shownWith at h
  split at h
  · exact nestedFrom_subset (List.nil_subset _) h
  · rw [← Except.ok.inj h]
    exact List.nil_subset _

end Library

theorem Armature.actionRefs_setEnabled (ha : a.actionRefs ⊆ names) (prefs : Preferences)
    (enabled : Bool) : (a.mapBones fun _ b => b.setEnabled prefs enabled).actionRefs ⊆ names :=
  actionRefs_mapBones ha fun _ b hb => (b.actionRefs_setEnabled prefs enabled).symm ▸ hb

namespace Network

theorem actionRefs_place (name : String) (time : Scalar) (es : List BoneEntry)
    (ha : a.actionRefs ⊆ names) (hp : p.action.toList ⊆ names) :
    (place p name time es a).armature.actionRefs ⊆ names := by
  induction es generalizing a with
  | nil => exact ha
  | cons e r ih =>
    cases hb : a.bones.get? e.bone with
    | none =>
      simp only [place, hb]
      exact ih ha
    | some b =>
      simp only [place, hb]
      apply ih
      exact Armature.actionRefs_updateBone ha fun _ hb => Bone.actionRefs_addConstraint hb hp

theorem actionRefs_install {o : Object} (prefs : Preferences) (inputs : List Input)
    (ho : o.actionRefs ⊆ names) (ha : a.actionRefs ⊆ names) (hp : p.action.toList ⊆ names) :
    (install prefs inputs p a o).2.actionRefs ⊆ names := by
  rw [Object.actionRefs_subset_iff] at ho ⊢
  constructor
  · rw [install, view_foldl_bindBlend Object.activeAction Object.activeAction_addDriver]
    exact ho.1
  · intro a' ha'
    rw [armature_install] at ha'
    rw [← Option.some.inj ha']
    exact actionRefs_place _ _ _ ha hp

end Network

namespace Scene.Grounded

theorem compile (h : s.Grounded names) (hp : p.action.toList ⊆ names)
    (hs : Network.compile prefs rig l p s = .ok (report, s')) : s'.Grounded names := by
  obtain ⟨inputs, o, a, -, ho, hoa, -, rfl⟩ := Network.compile_eq_ok.mp hs
  have hrefs := h.object ho
  exact h.setObject rig
    (Network.actionRefs_install prefs inputs hrefs
      ((Object.actionRefs_subset_iff.mp hrefs).2 a hoa) hp)

theorem purge {counts : PurgeCounts} (h : s.Grounded names)
    (hs : Network.purge prefs rig s = .ok (counts, s')) : s'.Grounded names := by
  unfold Network.purge at hs
  split at hs
  · cases hs
  · cases hs
    exact h.updateObject fun _ ho => Object.actionRefs_purge ho prefs

theorem rebuild (h : s.Grounded names) (prefs : Preferences) (rig : String)
    (hl : l.actionRefs ⊆ names) : (Network.rebuild prefs rig l s).2.Grounded names :=
  Network.rebuild_preserves prefs rig l (fun _ _ => h.purge)
    (fun p hp _ _ _ hs => hs.compile (Library.actionRefs_subset_iff.mp hl p hp)) h

theorem switch (h : s.Grounded names) (prefs : Preferences) (rig : String) (enabled : Bool) :
    (s.updateArmature rig fun a => a.mapBones fun _ b => b.setEnabled prefs enabled).Grounded
      names :=
  h.updateArmature fun _ ha => Armature.actionRefs_setEnabled ha prefs enabled

theorem setEnabled {enabled : Bool} {n : Nat} (h : s.Grounded names)
    (hs : Network.setEnabled prefs rig enabled s = .ok (n, s')) : s'.Grounded names := by
  unfold Network.setEnabled at hs
  split at hs
  · cases hs
  · cases hs
    exact h.switch prefs rig enabled

theorem tryAssign (h : s.Grounded names) (rig : String) (action : Option String) :
    (Edit.tryAssign s rig action).2.Grounded names := by
  unfold Edit.tryAssign
  split
  · exact h.assignAction ‹_›
  · exact h

theorem placeTemp (prefs : Preferences) {ps : List Pose} (hps : ∀ p ∈ ps, p.action.toList ⊆ names)
    (ha : a.actionRefs ⊆ names) : (Edit.placeTemp prefs ps a).2.actionRefs ⊆ names := by
  induction ps generalizing a with
  | nil => exact ha
  | cons p r ih =>
    obtain ⟨hp, hr⟩ := List.forall_mem_cons.mp hps
    exact ih hr (Network.actionRefs_place _ _ _ ha hp)

theorem enter {index : Nat} {session session' : Session} (h : s.Grounded names)
    (hl : l.actionRefs ⊆ names)
    (hs : Edit.enter prefs rig l index session s = .ok (report, session', s')) :
    s'.Grounded names := by
  obtain ⟨p, nested, o, a, -, hnested, ho, hoa, -, rfl⟩ := Edit.enter_eq_ok hs
  rw [Library.actionRefs_subset_iff] at hl
  have hshown : ∀ p ∈ nested, p.action.toList ⊆ names :=
    fun p hp => hl p (Library.shownWith_subset hnested hp)
  have hrested : (s.updateArmature rig (·.restBones)).Grounded names := h.mapBones fun _ _ hb => hb
  have hassigned := hrested.tryAssign rig p.action
  have hkeyed : ({ (Edit.tryAssign (s.updateArmature rig (·.restBones)) rig p.action).2 with
      autoKey := true } : Scene).Grounded names := hassigned.congr rfl rfl
  have hrefs := (Object.actionRefs_subset_iff.mp (h.object ho)).2 a hoa
  have hrest : a.restBones.actionRefs ⊆ names := Armature.actionRefs_mapBones hrefs fun _ _ hb => hb
  apply hkeyed.updateArmature
  exact fun _ _ => placeTemp prefs hshown (Armature.actionRefs_setEnabled hrest prefs false)

theorem restoreActive (h : s.Grounded names) (former : Option String) :
    (Edit.restoreActive former s).2.Grounded names := by
  unfold Edit.restoreActive
  split
  · exact h
  · split_ifs
    · exact h
    · exact h.congr rfl rfl
    · exact h.congr rfl rfl

theorem restore (h : s.Grounded names) (taken : Snapshot) (rig : String) :
    (s.updateArmature rig (·.restore taken)).Grounded names :=
  h.updateArmature fun _ ha => Armature.actionRefs_mapBones ha fun _ _ hb => hb

theorem removeTemp (h : s.Grounded names) (prefs : Preferences) (rig : String) :
    (s.updateObject rig (·.removeTemp prefs)).Grounded names :=
  h.updateObject fun o ho =>
    Object.actionRefs_armature ho (Object.activeAction_removeWhere o fun p =>
        p.constraint?.any prefs.isTemp) rfl
      fun _ ha => Armature.actionRefs_mapBones ha fun _ _ hb =>
        Bone.actionRefs_removeConstraints hb prefs.isTemp

theorem leave (h : s.Grounded names) (prefs : Preferences) (rig : String) (session : Session) :
    (Edit.leave prefs rig session s).2.2.Grounded names := by
  cases session with
  | idle => exact h
  | editing taken =>
    have hstart : ({ s with autoKey := false } : Scene).Grounded names := h.congr rfl rfl
    have hassigned := (hstart.restoreActive taken.activeObject).tryAssign rig taken.activeAction
    simp only [Edit.leave]
    split
    · exact hassigned
    · have hcleared := (hassigned.restore taken rig).removeTemp prefs rig
      exact (hcleared.switch prefs rig true).congr rfl rfl

theorem toggle (h : s.Grounded names) (prefs : Preferences) (rig : String) (index : Nat)
    (session : Session) (hl : l.actionRefs ⊆ names) :
    (Edit.toggle prefs rig l index session s).2.2.Grounded names := by
  unfold Edit.toggle
  split
  · exact h.leave prefs rig session
  · split
    · exact h
    · exact h.enter hl ‹_›

theorem compileAll (h : s.Grounded names) (prefs : Preferences) (rig : String) (session : Session)
    (hl : l.actionRefs ⊆ names) :
    (Network.compileAll prefs rig l session s).2.2.Grounded names :=
  Network.compileAll_preserves prefs rig l session (fun _ hs => hs.rebuild prefs rig hl)
    (h.leave prefs rig session)

theorem evaluateDrivers {outputs : List DriverOutput} (h : s.Grounded names)
    (hs : s.evaluateDrivers rig = .ok (outputs, s')) : s'.Grounded names := by
  unfold Scene.evaluateDrivers at hs
  split at hs
  · cases hs
  · rename_i o _
    have hrun := h.runDrivers rig o.animationOrNew.drivers
    rwa [Except.ok.inj hs] at hrun

end Scene.Grounded

end PoseRig
