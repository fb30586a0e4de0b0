import PoseRig.Proofs.Edit.Suspend
import PoseRig.Workspace.Command

/-!
# Entering and leaving action edit

Posing the rig while an action is edited leaves it suspended, command by command and so over any
list of commands. Leaving then gives the scene on entry.
-/

set_option autoImplicit false

namespace PoseRig

/-- The commands that pose a rig: they change its bone transforms, its selection and active bone,
the auto-key flag, or whether the compiled network is on. -/
def Command.PosesRig (rig : String) : Command → Prop
  | .scene (.setTransform object (some _) _) => object = rig
  | .scene (.setSelect object _ _) => object = rig
  | .scene (.setActiveBone object _) => object = rig
  | .scene (.setAutoKey _) => True
  | .rig (.selectPoseBones _) => True
  | .rig (.selectActionBones _) => True
  | .rig (.setEnabled _) => True
  | _ => False

namespace Edit

variable {prefs : Preferences} {rig : String} {taken : Snapshot} {s s' s₀ : Scene} {o : Object}
  {a : Armature}

namespace Suspended

theorem contains_bone (h : Suspended prefs rig taken s₀ o s) (ha : o.armature = some a)
    {bone : String} {b : Bone} (hb : s.bone rig bone = .ok b) : a.bones.contains bone = true := by
  cases ha' : s.armature rig with
  | error e => simp [Scene.bone, ha'] at hb
  | ok a' =>
    have hsettle := h.settle_armature ha ha'
    cases hb' : a'.bones.get? bone with
    | none => simp [Scene.bone, ha', hb'] at hb
    | some b' =>
      rw [← hsettle, Table.contains]
      simp [Armature.settle, Table.get?_map, hb']

theorem onBone {bone : String} {f : Bone → Bone} (h : Suspended prefs rig taken s₀ o s)
    (hf : ∀ b, s.bone rig bone = .ok b → (f b).settle prefs taken bone = b.settle prefs taken bone)
    (hs : s.onBone rig bone f = .ok s') : Suspended prefs rig taken s₀ o s' := by
  cases hb : s.bone rig bone with
  | error e => simp [Scene.onBone, hb, Except.map] at hs
  | ok b =>
    obtain rfl : s.updateBone rig bone f = s' := by simpa [Scene.onBone, hb, Except.map] using hs
    apply h.updateArmature
    intro a ha
    apply Armature.settle_updateBone
    intro b' hb'
    exact hf b' (by simp [Scene.bone, ha, hb'])

theorem setActiveBone {bone : Option String} (h : Suspended prefs rig taken s₀ o s)
    (hs : s.setActiveBone rig bone = .ok s') : Suspended prefs rig taken s₀ o s' := by
  cases ha : s.armature rig with
  | error e => simp [Scene.setActiveBone, Scene.onArmature, ha, Except.map] at hs
  | ok a =>
    simp only [Scene.setActiveBone, Scene.onArmature, ha, Except.map, Except.ok.injEq] at hs
    rw [← hs]
    exact h.updateArmature fun b _ => rfl

theorem selectBones {bones : List String} {n : Nat} (h : Suspended prefs rig taken s₀ o s)
    (hs : s.selectBones rig bones = .ok (n, s')) : Suspended prefs rig taken s₀ o s' := by
  cases ha : s.armature rig with
  | error e => simp [Scene.selectBones, ha] at hs
  | ok a =>
    simp only [Scene.selectBones, ha, Except.ok.injEq, Prod.mk.injEq] at hs
    rw [← hs.2]
    apply h.updateArmature
    intro b _
    apply Armature.settle_mapBones
    intro n bone _
    by_cases hn : n ∈ bones
    · rw [if_pos hn]
      rfl
    · rw [if_neg hn]

theorem selectPoseBones {l : Library} {index n : Nat} (h : Suspended prefs rig taken s₀ o s)
    (hs : s.selectPoseBones rig l index = .ok (n, s')) : Suspended prefs rig taken s₀ o s' := by
  cases hp : l.get index with
  | error e => simp [Scene.selectPoseBones, hp] at hs
  | ok p => exact h.selectBones (by simpa [Scene.selectPoseBones, hp] using hs)

theorem selectActionBones {l : Library} {index n : Nat} (h : Suspended prefs rig taken s₀ o s)
    (hs : s.selectActionBones rig l index = .ok (n, s')) : Suspended prefs rig taken s₀ o s' := by
  cases hp : l.get index with
  | error e => simp [Scene.selectActionBones, hp] at hs
  | ok p =>
    cases hg : s.actionGroups p with
    | error e => simp [Scene.selectActionBones, hp, hg] at hs
    | ok groups => exact h.selectBones (by simpa [Scene.selectActionBones, hp, hg] using hs)

theorem setEnabled {enabled : Bool} {n : Nat} (h : Suspended prefs rig taken s₀ o s)
    (hs : Network.setEnabled prefs rig enabled s = .ok (n, s')) :
    Suspended prefs rig taken s₀ o s' := by
  cases ha : s.armature rig with
  | error e => simp [Network.setEnabled, ha] at hs
  | ok a =>
    simp only [Network.setEnabled, ha, Except.ok.injEq, Prod.mk.injEq] at hs
    rw [← hs.2]
    exact h.updateArmature fun b _ => Armature.settle_mapBones prefs taken b _ fun n bone _ =>
      Bone.settle_setEnabled prefs taken n bone enabled

end Suspended

end Edit

theorem Library.nestedFrom_simple {l : Library} {part : String} {ancestors : List String}
    {rest next : List (String × List String)} {found : List Pose} {p : Pose}
    (hpart : part ∉ ancestors) (hp : l.part? part = some p) (hkind : p.kind = .simple) :
    l.nestedFrom ((part, ancestors) :: rest) next found =
      l.nestedFrom rest next (addFound found p) := by
  rw [Library.nestedFrom_cons hpart, hp]
  simp only [hkind]

namespace Workspace

open Edit (Settled Suspended snapshot)

variable {w w' : Workspace} {taken : Snapshot} {o : Object} {a : Armature} {d : Animation}

/-- What holds of a workspace since the rig of `w` went into action edit, and only its pose
changed. -/
structure Editing (w : Workspace) (taken : Snapshot) (o : Object) (w' : Workspace) : Prop where
  frame : w' = { w with session := .editing taken, scene := w'.scene }
  scene : Suspended w.prefs w.rig taken w.scene o w'.scene

namespace Editing

theorem withScene (h : Editing w taken o w') {s : Scene}
    (hs : Suspended w.prefs w.rig taken w.scene o s) :
    Editing w taken o { w' with scene := s } := by
  constructor
  · rw [h.frame]
  · exact hs

theorem settleSceneOnly (h : Editing w taken o w') {r : Except Fault Scene}
    (hr : ∀ s, r = .ok s → Suspended w.prefs w.rig taken w.scene o s) :
    Editing w taken o (w'.settleSceneOnly r).2 := by
  cases r with
  | error e => exact h
  | ok s => exact h.withScene (hr s rfl)

theorem settleScene {α : Type} (h : Editing w taken o w') {r : Except Fault (α × Scene)}
    {answer : α → Answer} (hr : ∀ x s, r = .ok (x, s) → Suspended w.prefs w.rig taken w.scene o s) :
    Editing w taken o (w'.settleScene answer r).2 := by
  cases r with
  | error e => exact h
  | ok p => exact h.withScene (hr p.1 p.2 rfl)

theorem run (h : Editing w taken o w') (ha : o.armature = some a)
    (htaken : ∀ n, a.bones.contains n = true → (taken.transforms.get? n).isSome)
    {c : Command} (hc : c.PosesRig w.rig) : Editing w taken o (w'.run c).2 := by
  have hrig : w'.rig = w.rig := by rw [h.frame]
  have hprefs : w'.prefs = w.prefs := by rw [h.frame]
  cases c with
  | scene c =>
    cases c with
    | setTransform object bone t =>
      cases bone with
      | none => cases hc
      | some bone =>
        obtain rfl : object = w.rig := hc
        apply h.settleSceneOnly
        intro s hs
        apply h.scene.onBone _ hs
        intro b hb
        exact Bone.settle_transform _ _ (htaken bone (h.scene.contains_bone ha hb)) b t
    | setSelect object bone value =>
      obtain rfl : object = w.rig := hc
      exact h.settleSceneOnly fun s hs =>
        h.scene.onBone (fun b _ => Bone.settle_select _ _ bone b value) hs
    | setActiveBone object bone =>
      obtain rfl : object = w.rig := hc
      exact h.settleSceneOnly fun s hs => h.scene.setActiveBone hs
    | setAutoKey value => exact h.withScene (h.scene.setAutoKey value)
    | _ => cases hc
  | rig c =>
    cases c with
    | selectPoseBones index =>
      apply h.settleScene
      intro n s hs
      rw [hrig] at hs
      exact h.scene.selectPoseBones hs
    | selectActionBones index =>
      apply h.settleScene
      intro n s hs
      rw [hrig] at hs
      exact h.scene.selectActionBones hs
    | setEnabled enabled =>
      apply h.settleScene
      intro n s hs
      rw [hrig, hprefs] at hs
      exact h.scene.setEnabled hs
    | _ => cases hc
  | _ => cases hc

theorem runAll {w' : Workspace} (h : Editing w taken o w') (ha : o.armature = some a)
    (htaken : ∀ n, a.bones.contains n = true → (taken.transforms.get? n).isSome)
    {cs : List Command} (hcs : ∀ c ∈ cs, c.PosesRig w.rig) : Editing w taken o (w'.runAll cs) := by
  induction cs generalizing w' with
  | nil => exact h
  | cons c r ih =>
    exact ih (h.run ha htaken (hcs c List.mem_cons_self)) fun c' hc' =>
      hcs c' (List.mem_cons_of_mem c hc')

theorem leave (h : Editing w taken o w') (ha : o.armature = some a)
    (hactive : taken.activeObject = w.scene.activeObject)
    (hautoKey : taken.autoKey = w.scene.autoKey)
    (haction : Assignable o.kind w.scene.actions taken.activeAction) :
    ∃ report actions, BoundFrom o.kind w.scene.actions actions ∧
      w'.run (.rig .leaveEdit) = (.ok (.report report),
        { w with session := .idle, scene := { w.scene with actions := actions } }) := by
  obtain ⟨o', ho', hsettle⟩ := h.scene.object
  have hkind : o'.kind = o.kind := by
    rw [← hsettle]
    rfl
  have harmature : o'.armature.isSome = true := by
    have hsome : (o'.settle w.prefs taken).armature.isSome = true := by
      rw [hsettle, ha]
      rfl
    simpa [Object.settle] using hsome
  have hactive' : w'.scene.activeObject = taken.activeObject :=
    (congrArg Scene.activeObject h.scene.rest).trans hactive.symm
  have haction' : Assignable o'.kind w'.scene.actions taken.activeAction := by
    rw [hkind]
    exact h.scene.actions.assignable haction
  obtain ⟨report, actions, hbound, hleave⟩ :
      ∃ report actions, BoundFrom o'.kind w'.scene.actions actions ∧
        Edit.leave w.prefs w.rig (.editing taken) w'.scene = (.ok report, .idle,
          { w'.scene with actions := actions, autoKey := taken.autoKey }.setObject w.rig
            (o'.settle w.prefs taken)) := Edit.leave_ok ho' harmature hactive' haction'
  refine ⟨report, actions, h.scene.actions.trans (hkind ▸ hbound), ?_⟩
  have hscene : { w'.scene with actions := actions, autoKey := taken.autoKey }.setObject w.rig
      (o'.settle w.prefs taken) = { w.scene with actions := actions } := by
    rw [hsettle, hautoKey]
    exact congrArg (fun t : Scene => { t with actions := actions, autoKey := w.scene.autoKey })
      h.scene.rest
  rw [hscene] at hleave
  rw [h.frame]
  simp only [Workspace.run, onRig, settleEdit, hleave]
  rfl

end Editing

/-- Entering action edit on a settled rig, posing the rig and leaving gives the workspace on
entry. -/
theorem leaveEdit_enterEdit {w₁ : Workspace} {index : Nat} {answer : Answer}
    (hdot : '.' ∉ w.prefs.tempMarker.toList) (ho : w.scene.object w.rig = .ok o)
    (hs : Settled w.prefs w.scene.actions o a d)
    (henter : w.run (.rig (.enterEdit index)) = (.ok answer, w₁)) {cs : List Command}
    (hcs : ∀ c ∈ cs, c.PosesRig w.rig) :
    ∃ report actions, BoundFrom o.kind w.scene.actions actions ∧
      (w₁.runAll cs).run (.rig .leaveEdit) = (.ok (.report report),
        { w with session := .idle, scene := { w.scene with actions := actions } }) := by
  cases he : Edit.enter w.prefs w.rig w.library index w.session w.scene with
  | error e => simp [run, onRig, he] at henter
  | ok r =>
    obtain ⟨report, session, s⟩ := r
    simp only [run, onRig, he, Prod.mk.injEq] at henter
    obtain ⟨pose, rfl, hsuspended⟩ := Edit.suspended_enter hdot ho hs he
    have hediting : Editing w (snapshot w.scene o a pose) o w₁ := by
      rw [← henter.2]
      exact ⟨rfl, hsuspended⟩
    have htaken : ∀ n, a.bones.contains n = true →
        ((snapshot w.scene o a pose).transforms.get? n).isSome := by
      intro n hn
      simpa [snapshot, Table.get?_map, Table.contains] using hn
    apply (hediting.runAll hs.armature htaken hcs).leave hs.armature rfl rfl
    have haction : (snapshot w.scene o a pose).activeAction = d.action := by
      simp [snapshot, Object.activeAction, hs.animation]
    rw [haction]
    exact hs.action

def browArmature : Armature where
  bones := .ofList
    [("Brow", { select := true
                constraints := [{ name := "Limit", enabled := false }, { name := "AP-Frown" }] }),
      ("Lip", {})]
  activeBone := some "Brow"

def browRig : Object where
  kind := .armature
  armature := some browArmature
  animation := some { action := some "Idle" }

def smilePose : Pose :=
  (Pose.ofChannel "Smile" "Rig" "Lip" ⟨.location, .y⟩).withBones ["Lip", "Lip"]

def frownPose : Pose := (Pose.ofChannel "Frown" "Rig" "Brow" ⟨.location, .y⟩).withBones ["Brow"]

def mixedPose : Pose := { Pose.ofParts "Mixed" "Smile" "Frown" with action := some "Face" }

def browWorkspace : Workspace where
  rig := "Rig"
  scene :=
    { objects := .ofList [("Rig", browRig)]
      actions := .ofList [("Idle", {}), ("Face", {})]
      activeObject := some "Rig" }
  library := { poses := [smilePose, frownPose, mixedPose] }

def browPosing : List Command :=
  [.scene (.setTransform "Rig" (some "Lip") {}), .rig (.setEnabled true),
    .scene (.setSelect "Rig" "Lip" true), .scene (.setActiveBone "Rig" none),
      .scene (.setAutoKey true)]

theorem shownWith_mixedPose :
    Edit.shownWith browWorkspace.library mixedPose = .ok [smilePose, frownPose] := by
  show browWorkspace.library.nestedFrom [("Smile", ["Mixed"]), ("Frown", ["Mixed"])] [] [] = _
  rw [Library.nestedFrom_simple (p := smilePose) (by decide) rfl rfl,
    Library.nestedFrom_simple (p := frownPose) (by decide) rfl rfl, Library.nestedFrom]
  rfl

theorem leaveEdit_enterEdit_brow :
    ∃ answer w₁ report actions,
      browWorkspace.run (.rig (.enterEdit 2)) = (.ok answer, w₁) ∧
      BoundFrom .armature browWorkspace.scene.actions actions ∧
      (w₁.runAll browPosing).run (.rig .leaveEdit) = (.ok (.report report),
        { browWorkspace with scene := { browWorkspace.scene with actions := actions } }) := by
  have henter : ∃ answer w₁, browWorkspace.run (.rig (.enterEdit 2)) = (.ok answer, w₁) := by
    have hpose : browWorkspace.library.get 2 = .ok mixedPose := rfl
    simp only [run, onRig, Edit.enter, hpose, shownWith_mixedPose]
    exact ⟨_, _, rfl⟩
  obtain ⟨answer, w₁, henter⟩ := henter
  have hbones : ∀ n b, browArmature.bones.get? n = some b →
      ∀ c ∈ b.constraints, c = { name := "Limit", enabled := false } ∨
        c = { name := "AP-Frown" } := by
    intro n b hb c hc
    have hentry := (browArmature.bones.mem_entries n b).mpr hb
    rcases List.mem_pair.mp hentry with h | h
    · obtain rfl := (Prod.mk.inj h).2
      exact List.mem_pair.mp hc
    · obtain rfl := (Prod.mk.inj h).2
      cases hc
  have hs : Settled browWorkspace.prefs browWorkspace.scene.actions browRig browArmature
      { action := some "Idle" } := by
    refine ⟨rfl, rfl, ?_, ?_, ?_, ?_, ?_⟩
    · rintro name ⟨⟩
      exact ⟨{}, rfl, Or.inl rfl⟩
    · rintro name ⟨⟩
      rfl
    · intro n b hb c hc hcompiled
      rcases hbones n b hb c hc with rfl | rfl
      · cases hcompiled
      · rfl
    · intro n b hb c hc
      rcases hbones n b hb c hc with rfl | rfl <;> rfl
    · intro e he
      cases he
  have hposes : ∀ c ∈ browPosing, c.PosesRig browWorkspace.rig := by
    simp [browPosing, Command.PosesRig, browWorkspace]
  obtain ⟨report, actions, hbound, hleave⟩ := leaveEdit_enterEdit (by decide) rfl hs henter hposes
  exact ⟨answer, w₁, report, actions, henter, hbound, hleave⟩

end Workspace

end PoseRig
