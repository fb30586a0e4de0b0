import PoseRig.Proofs.Edit.RoundTrip
import PoseRig.Proofs.Network.Ledger
import PoseRig.Proofs.Scene.Undriven

/-!
# The rig in isolation

Entering an edit of a combo turns the compiled poses off and shows those nested in the combo: every
bone is at rest, and behind the constraints that it had stand temporary ones, one for each entry of
a nested pose, under names that are new there. Drivers that lead to no temporary name cannot reach
them, so evaluating the rig leaves them as they are.
-/

set_option autoImplicit false

namespace PoseRig

variable {prefs : Preferences} {rig : String} {l : Library} {p : Pose} {s s' : Scene} {o : Object}
  {a : Armature} {nested : List Pose}

namespace Bone

theorem constraintNames_setEnabled (b : Bone) (prefs : Preferences) (enabled : Bool) :
    (b.setEnabled prefs enabled).constraintNames = b.constraintNames := by
  rw [constraintNames, setEnabled, List.map_map]
  refine List.map_congr_left fun c _ => ?_
  show (if prefs.isCompiled c.name then { c with enabled := enabled } else c).name = c.name
  split <;> rfl

theorem outline_extend {marked : String → Bool} (b : Bone) {cs : List Constraint}
    (h : ∀ c ∈ cs, marked c.name = true) :
    (b.extend cs).outline marked = b.outline marked ++ cs := by
  rw [outline, extend, List.map_append, Constraint.map_outline_of_marked h]
  rfl

def quiet (prefs : Preferences) (b : Bone) : Bone :=
  { b with transform := b.transform.reset }.setEnabled prefs false

theorem constraintNames_quiet (prefs : Preferences) (b : Bone) :
    (b.quiet prefs).constraintNames = b.constraintNames :=
  constraintNames_setEnabled _ prefs false

end Bone

def Armature.quiet (prefs : Preferences) (a : Armature) : Armature :=
  a.restBones.mapBones fun _ b => b.setEnabled prefs false

theorem Armature.bones_quiet (prefs : Preferences) (a : Armature) :
    (a.quiet prefs).bones = a.bones.map fun _ b => b.quiet prefs := by
  rw [quiet, mapBones, restBones, mapBones, Table.map_map]
  rfl

theorem Armature.contains_quiet (prefs : Preferences) (a : Armature) (bone : String) :
    (a.quiet prefs).bones.contains bone = a.bones.contains bone := by
  rw [bones_quiet, Table.contains, Table.contains, Table.get?_map, Option.isSome_map]

namespace Edit

/-- A nested pose with those of its entries that found their bone, each with the name of the
constraint that shows it. -/
structure Shown where
  pose : Pose
  placed : List (BoneEntry × String)

/-- The constraints that show poses on a bone: one for each entry, in full. -/
def shownOn (shown : List Shown) (bone : String) : List Constraint :=
  shown.flatMap fun e => Network.constraintsOn e.pose 1 bone e.placed

/-- What placing nested poses gives: their entries whose bone exists, in order, each with a
constraint at the end of its bone under a marked name that is new there. -/
structure Showing (prefs : Preferences) (nested : List Pose) (a : Armature) (shown : List Shown) :
    Prop where
  poses : shown.map Shown.pose = nested
  entries :
    ∀ e ∈ shown, e.placed.map Prod.fst = e.pose.bones.filter fun b => a.bones.contains b.bone
  bones : (placeTemp prefs nested a).2.bones = a.bones.map fun n b => b.extend (shownOn shown n)
  marked : ∀ n, ∀ c ∈ shownOn shown n, prefs.isTemp c.name = true
  new : ∀ n b, a.bones.get? n = some b →
    Naming.New b.constraintNames ((shownOn shown n).map (·.name))

theorem marked_constraintsOn {placed : List (BoneEntry × String)}
    (hdot : '.' ∉ prefs.tempMarker.toList)
    (h : Network.Spread p (prefs.tempConstraintName p.name) 1 p.bones a placed) (bone : String) :
    ∀ c ∈ Network.constraintsOn p 1 bone placed, prefs.isTemp c.name = true := by
  intro c hc
  obtain ⟨q, hq, -, rfl⟩ := Network.mem_constraintsOn.mp hc
  obtain ⟨taken, hname⟩ := h.named hq
  show prefs.isTemp q.2 = true
  rw [hname]
  exact Preferences.isTemp_fresh hdot taken p.name

theorem Showing.cons {placed : List (BoneEntry × String)} {shown : List Shown}
    (hdot : '.' ∉ prefs.tempMarker.toList)
    (hspread : Network.Spread p (prefs.tempConstraintName p.name) 1 p.bones a placed)
    (h : Showing prefs nested
      (Network.place p (prefs.tempConstraintName p.name) 1 p.bones a).armature shown) :
    Showing prefs (p :: nested) a (⟨p, placed⟩ :: shown) := by
  constructor
  · rw [List.map_cons, h.poses]
  · have hentries := h.entries
    simp only [Network.contains_place] at hentries
    exact List.forall_mem_cons.mpr ⟨hspread.entries, hentries⟩
  · rw [placeTemp]
    simp only [h.bones, hspread.bones, Table.map_map, Bone.extend_extend, shownOn,
      List.flatMap_cons]
  · intro n
    rw [shownOn, List.flatMap_cons, List.forall_mem_append]
    exact ⟨marked_constraintsOn hdot hspread n, h.marked n⟩
  · intro n b hb
    rw [shownOn, List.flatMap_cons, List.map_append]
    refine (hspread.new hb).append ?_
    have hnew := h.new n (b.extend (Network.constraintsOn p 1 n placed))
      (by rw [hspread.bones, Table.get?_map, hb, Option.map_some])
    rwa [Bone.constraintNames_extend] at hnew

theorem exists_showing (hdot : '.' ∉ prefs.tempMarker.toList) (nested : List Pose) (a : Armature) :
    ∃ shown, Showing prefs nested a shown := by
  induction nested generalizing a with
  | nil =>
    refine ⟨[], ?_⟩
    constructor
    · rfl
    · exact fun e he => absurd he List.not_mem_nil
    · exact (Table.map_eq_self a.bones fun n b _ => b.extend_nil).symm
    · exact fun n c hc => absurd hc List.not_mem_nil
    · exact fun n b _ => ⟨List.nodup_nil, fun _ hname => absurd hname List.not_mem_nil⟩
  | cons p r ih =>
    obtain ⟨placed, hspread⟩ :=
      Network.exists_spread p (prefs.tempConstraintName p.name) 1 p.bones a
    obtain ⟨shown, h⟩ := ih (Network.place p (prefs.tempConstraintName p.name) 1 p.bones a).armature
    exact ⟨⟨p, placed⟩ :: shown, h.cons hdot hspread⟩

theorem warnings_placeTemp (prefs : Preferences) (nested : List Pose) (a : Armature) :
    (placeTemp prefs nested a).1.messages .warning =
      nested.flatMap fun p =>
        (p.bones.filter fun e => !a.bones.contains e.bone).map (Network.missingBone p) := by
  induction nested generalizing a with
  | nil => rfl
  | cons p r ih =>
    rw [placeTemp]
    simp only [Report.messages_append, Network.warnings_place, ih, Network.contains_place,
      List.flatMap_cons]

theorem warnings_tryAssign (s : Scene) (rig : String) (action : Option String) :
    (tryAssign s rig action).1.messages .warning = [] := by
  unfold tryAssign
  split <;> rfl

theorem object_tryAssign (ho : s.object rig = .ok o) (action : Option String) :
    ∃ o', (tryAssign s rig action).2.object rig = .ok o' ∧ o'.armature = o.armature ∧
      o'.animationOrNew.drivers = o.animationOrNew.drivers := by
  obtain ⟨-, hsame, -⟩ | ⟨o₁, actions, ho₁, -, -, hassign⟩ := tryAssign_cases s rig action
  · exact ⟨o, hsame.symm ▸ ho, rfl, rfl⟩
  · obtain rfl := Except.ok.inj (ho.symm.trans ho₁)
    exact ⟨o.setActiveAction action, by rw [hassign, Scene.object_setObject], rfl, rfl⟩

variable {index : Nat} {session session' : Session} {report : Report}

theorem object_enter (h : enter prefs rig l index session s = .ok (report, session', s'))
    (hp : l.get index = .ok p) (hnested : shownWith l p = .ok nested) (ho : s.object rig = .ok o)
    (ha : o.armature = some a) :
    ∃ o', s'.object rig = .ok o' ∧ o'.armature = some (placeTemp prefs nested (a.quiet prefs)).2 ∧
      o'.animationOrNew.drivers = o.animationOrNew.drivers ∧ s'.autoKey = true := by
  obtain ⟨p₁, nested₁, o₁, a₁, hp₁, hnested₁, ho₁, ha₁, -, rfl⟩ := enter_eq_ok h
  obtain rfl := Except.ok.inj (hp.symm.trans hp₁)
  obtain rfl := Except.ok.inj (hnested.symm.trans hnested₁)
  obtain rfl := Except.ok.inj (ho.symm.trans ho₁)
  obtain rfl := Option.some.inj (ha.symm.trans ha₁)
  have hrested : (s.updateArmature rig (·.restBones)).object rig =
      .ok { o with armature := some a.restBones } := by
    rw [Scene.updateArmature_eq ho ha, Scene.object_setObject]
  obtain ⟨o₂, ho₂, ha₂, hdrivers⟩ := object_tryAssign hrested p.action
  have hkeyed : ({ (tryAssign (s.updateArmature rig (·.restBones)) rig p.action).2 with
      autoKey := true } : Scene).object rig = .ok o₂ := ho₂
  refine ⟨{ o₂ with armature := some (placeTemp prefs nested (a.quiet prefs)).2 }, ?_, rfl,
    hdrivers, rfl⟩
  rw [Scene.updateArmature_eq hkeyed ha₂, Scene.object_setObject]
  rfl

theorem warnings_enter (h : enter prefs rig l index session s = .ok (report, session', s'))
    (hp : l.get index = .ok p) (hnested : shownWith l p = .ok nested) (ho : s.object rig = .ok o)
    (ha : o.armature = some a) :
    report.messages .warning = nested.flatMap fun q =>
      (q.bones.filter fun e => !a.bones.contains e.bone).map (Network.missingBone q) := by
  have hediting : session.isEditing = false := by
    cases hs : session.isEditing with
    | false => rfl
    | true => simp [enter, hs] at h
  have harmature := Scene.armature_of_object ho ha
  simp only [enter, hediting, hp, hnested, ho, harmature, Bool.false_eq_true, if_false,
    Except.ok.injEq, Prod.mk.injEq] at h
  have hplaced := warnings_placeTemp prefs nested (a.quiet prefs)
  simp only [Armature.contains_quiet] at hplaced
  rw [← h.1, Report.messages_append, Report.messages_append, warnings_tryAssign, List.nil_append]
  exact (List.append_nil _).trans hplaced

theorem mem_shownOn {shown : List Shown} {bone : String} {c : Constraint} :
    c ∈ shownOn shown bone ↔ ∃ e ∈ shown, ∃ q ∈ e.placed, q.1.bone = bone ∧
      c = { name := q.2, enabled := true, action := e.pose.action,
            frameStart := e.pose.startFrame, frameEnd := e.pose.endFrame, mix := e.pose.mix,
            influence := q.1.influence, useEvalTime := true, evalTime := 1 } := by
  simp only [shownOn, List.mem_flatMap, Network.mem_constraintsOn]

/-- Evaluating a rig whose drivers lead to no temporary constraint leaves the nested poses shown. -/
theorem Showing.evaluate {shown : List Shown} (h : Showing prefs nested a shown)
    (ho : s.object rig = .ok o) (ha : o.armature = some (placeTemp prefs nested a).2)
    (hdrivers : ∀ d ∈ o.animationOrNew.drivers, d.dataPath.Avoids prefs.isTemp) (l : Library) :
    ∃ outputs s' l' a', Network.evaluate rig l s = .ok (outputs, s', l') ∧
      s'.armature rig = .ok a' ∧
      ∀ n b, a.bones.get? n = some b → ∃ b' others, a'.bones.get? n = some b' ∧
        b'.constraints = others ++ shownOn shown n ∧ others.map (·.name) = b.constraintNames := by
  obtain ⟨outputs, s', l', heval, houtline⟩ := Network.outline_evaluate l ho hdrivers
  rw [Scene.outline, Scene.outline, Scene.armature_of_object ho ha] at houtline
  cases ha' : s'.armature rig with
  | error e => simp [ha', Except.map] at houtline
  | ok a' =>
    rw [ha'] at houtline
    have hbones : a'.outline prefs.isTemp = (placeTemp prefs nested a).2.outline prefs.isTemp :=
      Except.ok.inj houtline
    refine ⟨outputs, s', l', a', heval, ha', fun n b hb => ?_⟩
    have hget := congrArg (fun t : Table (List Constraint) => t.get? n) hbones
    simp only [Armature.outline, h.bones, Table.get?_map, hb, Option.map_some] at hget
    obtain ⟨b', hb', hbone⟩ := Option.map_eq_some_iff.mp hget
    rw [Bone.outline_extend b (h.marked n)] at hbone
    obtain ⟨others, hothers⟩ := Bone.constraints_of_outline (h.marked n) hbone
    exact ⟨b', others, hb', hothers⟩

/-- Entering the edit of a combo, on any rig with an armature, puts every bone to rest, turns the
compiled constraints off, and shows the poses nested in the combo. Each of their entries that finds
its bone has one constraint there, behind those of before, which plays the action of the pose in
full, with the weight of the entry, under a new marked name; the others are reported, and nothing
else is. Drivers stay as they are, and unless one of them led to a marked name already, evaluating
the rig changes none of the new constraints. -/
theorem enter_isolates (hdot : '.' ∉ prefs.tempMarker.toList) (hp : l.get index = .ok p)
    (hk : p.kind = .combo) (h : enter prefs rig l index session s = .ok (report, session', s')) :
    ∃ nested shown o a o' a',
      l.nested p = .ok nested ∧ s.object rig = .ok o ∧ o.armature = some a ∧
      s'.object rig = .ok o' ∧ o'.armature = some a' ∧ s'.autoKey = true ∧
      o'.animationOrNew.drivers = o.animationOrNew.drivers ∧
      shown.map Shown.pose = nested ∧
      (∀ e ∈ shown, e.placed.map Prod.fst = e.pose.bones.filter fun b => a.bones.contains b.bone) ∧
      a'.bones = (a.bones.map fun n b => { b with
        transform := { rotationMode := b.transform.rotationMode }
        constraints := (b.constraints.map fun c =>
          if prefs.isCompiled c.name then { c with enabled := false } else c) ++
            shownOn shown n }) ∧
      (∀ n, ∀ c ∈ shownOn shown n, prefs.isTemp c.name = true ∧
        ∃ e ∈ shown, ∃ q ∈ e.placed, q.1.bone = n ∧
          c = { name := q.2, enabled := true, action := e.pose.action,
                frameStart := e.pose.startFrame, frameEnd := e.pose.endFrame, mix := e.pose.mix,
                influence := q.1.influence, useEvalTime := true, evalTime := 1 }) ∧
      (∀ n b, a.bones.get? n = some b →
        Naming.New b.constraintNames ((shownOn shown n).map (·.name))) ∧
      report.messages .warning = (nested.flatMap fun q =>
        (q.bones.filter fun e => !a.bones.contains e.bone).map (Network.missingBone q)) ∧
      ((∀ d ∈ o.animationOrNew.drivers, d.dataPath.Avoids prefs.isTemp) → ∀ l,
        ∃ outputs s'' l' a'', Network.evaluate rig l s' = .ok (outputs, s'', l') ∧
          s''.armature rig = .ok a'' ∧ ∀ n b, a.bones.get? n = some b →
            ∃ b'' others, a''.bones.get? n = some b'' ∧
              b''.constraints = others ++ shownOn shown n ∧
                others.map (·.name) = b.constraintNames) := by
  obtain ⟨p₁, nested, o, a, hp₁, hshown, ho, ha, -, -⟩ := enter_eq_ok h
  obtain rfl := Except.ok.inj (hp.symm.trans hp₁)
  have hnested : l.nested p = .ok nested := by
    simpa [shownWith, Pose.isCombo, hk] using hshown
  obtain ⟨o', ho', ha', hdrivers, hautoKey⟩ := object_enter h hp hshown ho ha
  obtain ⟨shown, hshowing⟩ := exists_showing hdot nested (a.quiet prefs)
  have hquiet : ∀ n b, a.bones.get? n = some b →
      (a.quiet prefs).bones.get? n = some (b.quiet prefs) := fun n b hb => by
    rw [Armature.bones_quiet, Table.get?_map, hb, Option.map_some]
  refine ⟨nested, shown, o, a, o', _, hnested, ho, ha, ho', ha', hautoKey, hdrivers,
    hshowing.poses, ?_, ?_, fun n c hc => ⟨hshowing.marked n c hc, mem_shownOn.mp hc⟩,
    fun n b hb => ?_, warnings_enter h hp hshown ho ha, fun havoids l => ?_⟩
  · simpa only [Armature.contains_quiet] using hshowing.entries
  · rw [hshowing.bones, Armature.bones_quiet, Table.map_map]
    rfl
  · have hnew := hshowing.new n (b.quiet prefs) (hquiet n b hb)
    rwa [Bone.constraintNames_quiet] at hnew
  · obtain ⟨outputs, s'', l', a'', heval, ha'', hbones⟩ :=
      hshowing.evaluate ho' ha' (hdrivers ▸ havoids) l
    refine ⟨outputs, s'', l', a'', heval, ha'', fun n b hb => ?_⟩
    obtain ⟨b'', others, hb'', hsplit, hnames⟩ := hbones n (b.quiet prefs) (hquiet n b hb)
    exact ⟨b'', others, hb'', hsplit, hnames.trans (Bone.constraintNames_quiet prefs b)⟩

open Workspace (browWorkspace browRig browArmature mixedPose smilePose frownPose)

def grinPose : Pose :=
  { smilePose with
    action := some "Face"
    startFrame := 5
    endFrame := 25
    mix := .afterFull
    bones := [⟨"Lip", 1⟩, ⟨"Lip", 0⟩] }

def grinLibrary : Library := { poses := [grinPose, frownPose, mixedPose] }

theorem nested_mixedPose : grinLibrary.nested mixedPose = .ok [grinPose, frownPose] := by
  show grinLibrary.nestedFrom [("Smile", ["Mixed"]), ("Frown", ["Mixed"])] [] [] = _
  rw [Library.nestedFrom_simple (p := grinPose) (by decide) rfl rfl,
    Library.nestedFrom_simple (p := frownPose) (by decide) rfl rfl, Library.nestedFrom]
  rfl

theorem enter_isolates_mixed :
    '.' ∉ ({} : Preferences).tempMarker.toList ∧
    grinLibrary.get 2 = .ok mixedPose ∧ mixedPose.kind = .combo ∧
    ∃ report session s' o' a' lip outputs s'' l',
      enter {} "Rig" grinLibrary 2 .idle browWorkspace.scene = .ok (report, session, s') ∧
      s'.object "Rig" = .ok o' ∧ o'.armature = some a' ∧ a'.bones.names = ["Brow", "Lip"] ∧
      a'.bones.get? "Lip" = some lip ∧
      lip.constraints =
        [{ name := "AP_TEMP-Smile", enabled := true, action := some "Face",
           frameStart := 5, frameEnd := 25, mix := .afterFull,
           influence := 1, useEvalTime := true, evalTime := 1 },
         { name := "AP_TEMP-Smile.001", enabled := true, action := some "Face",
           frameStart := 5, frameEnd := 25, mix := .afterFull,
           influence := 0, useEvalTime := true, evalTime := 1 }] ∧
      s'.autoKey = true ∧ report.messages .warning = [] ∧
      Network.evaluate "Rig" grinLibrary s' = .ok (outputs, s'', l') := by
  have hdot : '.' ∉ ({} : Preferences).tempMarker.toList := by decide
  have hpose : grinLibrary.get 2 = .ok mixedPose := rfl
  have hshown : shownWith grinLibrary mixedPose = .ok [grinPose, frownPose] := nested_mixedPose
  have henter : ∃ report session s',
      enter {} "Rig" grinLibrary 2 .idle browWorkspace.scene = .ok (report, session, s') ∧
      s'.armature "Rig" = .ok (placeTemp {} [grinPose, frownPose] (browArmature.quiet {})).2 := by
    simp only [enter, hpose, hshown]
    exact ⟨_, _, _, rfl, rfl⟩
  obtain ⟨report, session, s', henter, harmature⟩ := henter
  obtain ⟨nested, shown, o, a, o', a', hnested', ho, ha, ho', ha', hautoKey, -, -, -, hbones, -, -,
    hwarnings, hevaluate⟩ := enter_isolates hdot hpose rfl henter
  obtain rfl := Except.ok.inj (nested_mixedPose.symm.trans hnested')
  obtain rfl : browRig = o := Except.ok.inj ho
  obtain rfl : browArmature = a := Option.some.inj ha
  obtain ⟨outputs, s'', l', -, heval, -⟩ :=
    hevaluate (fun d hd => absurd hd List.not_mem_nil) grinLibrary
  have hnames : a'.bones.names = ["Brow", "Lip"] := by
    rw [hbones, Table.names_map]
    rfl
  have hwarned : report.messages .warning = [] := by
    rw [hwarnings]
    rfl
  obtain rfl := Except.ok.inj ((Scene.armature_of_object ho' ha').symm.trans harmature)
  exact ⟨hdot, hpose, rfl, report, session, s', o', _, _, outputs, s'', l', henter, ho',
    ha', hnames, rfl, rfl, hautoKey, hwarned, heval⟩

end Edit

end PoseRig
