import PoseRig.Proofs.Edit.Suspend
import PoseRig.Proofs.Network.Ledger

/-!
# Which poses a build takes

A build is a sequence of rounds, one for each pose of the library in list order. The gates of a
round are the flag of the pose, its validity in the scene that the rounds before left, and its
inputs being free of cycles. A pose that is held back leaves the scene as it was.
-/

set_option autoImplicit false

namespace PoseRig.Network

/-- The round of a pose in a build: what it reports, whether it builds the pose, and the
scenes around it. -/
structure Round where
  pose : Pose
  before : Scene
  report : Report
  built : Bool
  after : Scene

/-- Rounds from one scene to another, each starting where the one before ends. -/
def Linked : Scene → List Round → Scene → Prop
  | s, [], s' => s' = s
  | s, r :: rest, s' => r.before = s ∧ Linked r.after rest s'

/-- What the gates let a round do, and what a pose that passes them puts on the rig. -/
structure Round.Gated (prefs : Preferences) (rig : String) (l : Library) (r : Round) : Prop where
  built_iff : r.built = true ↔ r.pose.build = true ∧ r.pose.invalid? r.before = none ∧
    ∀ chain, l.inputs r.pose ≠ .error (.comboCycle chain)
  compiled : r.built = true → compile prefs rig l r.pose r.before = .ok (r.report, r.after)
  laid : r.built = true → ∃ (e : Built) (o : Object) (a : Armature) (o' : Object),
    e.pose = r.pose ∧ l.inputs r.pose = .ok e.inputs ∧ r.before.object rig = .ok o ∧
      o.armature = some a ∧ r.after = r.before.setObject rig o' ∧ e.Onto prefs o a o'
  held_back : r.built = false → r.after = r.before
  unflagged : r.pose.build = false → r.report.entries = []
  invalid : ∀ reason, r.pose.build = true → r.pose.invalid? r.before = some reason →
    r.report.entries = [(.warning, "pose '" ++ r.pose.name ++ "' skipped: " ++ reason.message)]
  cyclic : ∀ chain, r.pose.build = true → r.pose.invalid? r.before = none →
    l.inputs r.pose = .error (.comboCycle chain) →
    r.report.entries =
      [(.error, "pose '" ++ r.pose.name ++ "' skipped: " ++ (Fault.comboCycle chain).message)]

variable {prefs : Preferences} {rig : String} {l : Library} {p : Pose} {s s' : Scene} {a : Armature}

theorem exists_round (prefs : Preferences) (l : Library) (p : Pose) (ha : s.armature rig = .ok a) :
    ∃ r : Round, r.pose = p ∧ r.before = s ∧ r.Gated prefs rig l ∧
      build prefs rig l p s = .ok (r.report, r.built, r.after) ∧
      ∃ a', r.after.armature rig = .ok a' := by
  cases hflag : p.build with
  | false =>
    refine ⟨⟨p, s, {}, false, s⟩, rfl, rfl, ?_, by simp [build, hflag], a, ha⟩
    constructor <;> simp [hflag]
  | true =>
    cases hinv : p.invalid? s with
    | some reason =>
      refine ⟨⟨p, s, .warning ("pose '" ++ p.name ++ "' skipped: " ++ reason.message), false, s⟩,
        rfl, rfl, ?_, by simp [build, hflag, hinv], a, ha⟩
      constructor <;> simp [hflag, hinv, Report.warning]
    | none =>
      cases hc : compile prefs rig l p s with
      | error e =>
        obtain ⟨chain, rfl, hin⟩ := compile_error ha hc
        refine ⟨⟨p, s, .error ("pose '" ++ p.name ++ "' skipped: " ++
          (Fault.comboCycle chain).message), false, s⟩, rfl, rfl, ?_,
            by simp [build, hflag, hinv, hc], a, ha⟩
        constructor <;> simp [hflag, hinv, hin, Report.error]
      | ok result =>
        obtain ⟨report, s'⟩ := result
        obtain ⟨inputs, o, a', hin, ho, hoa, -, hafter⟩ := compile_eq_ok.mp hc
        obtain ⟨placed, hspread⟩ := exists_spread p (prefs.constraintName p.name) 0 p.bones a'
        have hlaid : ∃ (e : Built) (o : Object) (a : Armature) (o' : Object), e.pose = p ∧
            l.inputs p = .ok e.inputs ∧ s.object rig = .ok o ∧ o.armature = some a ∧
              s' = s.setObject rig o' ∧ e.Onto prefs o a o' :=
          ⟨⟨p, inputs, placed⟩, o, a', _, rfl, hin, ho, hoa, hafter, hspread.onto⟩
        refine ⟨⟨p, s, report, true, s'⟩, rfl, rfl, ?_, by simp [build, hflag, hinv, hc],
          armature_compile hc⟩
        constructor
        case laid => exact fun _ => hlaid
        all_goals simp [hflag, hinv, hin, hc]

/-- A build of poses is a sequence of gated rounds, and counts the built ones. -/
theorem buildEach_rounds (prefs : Preferences) (l : Library) (ps : List Pose)
    (ha : s.armature rig = .ok a) :
    ∃ rounds report s', rounds.map Round.pose = ps ∧ Linked s rounds s' ∧
      (∀ r ∈ rounds, r.Gated prefs rig l) ∧
      buildEach prefs rig l ps s = (.ok (report, (rounds.filter Round.built).length), s') ∧
      report.entries = rounds.flatMap fun r => r.report.entries := by
  induction ps generalizing s a with
  | nil =>
    refine ⟨[], {}, s, rfl, rfl, ?_, rfl, rfl⟩
    intro r hr
    cases hr
  | cons p rest ih =>
    obtain ⟨r, rfl, rfl, hgated, hb, a', ha'⟩ := exists_round prefs l p ha
    obtain ⟨rounds, report, s', hposes, hlinked, hall, hbuild, hentries⟩ := ih ha'
    refine ⟨r :: rounds, r.report ++ report, s', ?_, ⟨rfl, hlinked⟩, ?_, ?_, ?_⟩
    · rw [List.map_cons, hposes]
    · intro q hq
      rcases List.mem_cons.mp hq with rfl | hq
      · exact hgated
      · exact hall q hq
    · simp only [buildEach, hb, hbuild, List.filter_cons]
      cases r.built <;> rfl
    · rw [List.flatMap_cons, ← hentries]
      rfl

theorem armature_purged (prefs : Preferences) (ha : s.armature rig = .ok a) :
    ∃ counts purged a', purge prefs rig s = .ok (counts, purged) ∧
      purged.armature rig = .ok a' := by
  obtain ⟨o, ho, hoa⟩ := Scene.object_of_armature ha
  obtain ⟨a', ha'⟩ := armature_purge prefs hoa
  exact ⟨_, _, a', purge_eq ho, Scene.armature_of_object (Scene.object_setObject _ _ _) ha'⟩

theorem rebuild_rounds (prefs : Preferences) (l : Library) (ha : s.armature rig = .ok a) :
    ∃ counts purged rounds report built, purge prefs rig s = .ok (counts, purged) ∧
      rounds.map Round.pose = l.poses ∧ Linked purged rounds built ∧
      (∀ r ∈ rounds, r.Gated prefs rig l) ∧
      rebuild prefs rig l s = (.ok report, built) ∧
      report.entries = (rounds.flatMap fun r => r.report.entries) ++
        [(.info, toString (rounds.filter Round.built).length ++
          " poses created successfully")] := by
  obtain ⟨counts, purged, a', hp, ha'⟩ := armature_purged prefs ha
  obtain ⟨rounds, report, built, hposes, hlinked, hall, hb, hentries⟩ :=
    buildEach_rounds prefs l l.poses ha'
  refine ⟨counts, purged, rounds, report ++ .info (toString (rounds.filter Round.built).length ++
    " poses created successfully"), built, hp, hposes, hlinked, hall, ?_, ?_⟩
  · simp only [rebuild, hp, hb]
  · rw [← hentries]
    rfl

/-- The scene that a build starts from, and what was reported on the way there: an edit is
left first. -/
def Started (prefs : Preferences) (rig : String) (s : Scene) (left : Report) (start : Scene) :
    Session → Prop
  | .idle => left = {} ∧ start = s
  | .editing taken => Edit.leave prefs rig (.editing taken) s = (.ok left, .idle, start)

/-- Compiling a library never fails on a rig with an armature, and no edit is under way afterwards.
From the purged scene each pose has its round, in list order. A pose is built exactly when it is
flagged, is valid in the scene at its round, and its inputs have no cycle. A flagged pose that is
invalid gives one warning, one with a cycle one error, and whatever is not built leaves the scene
alone. The last entry of the report counts the built poses. -/
theorem compileAll_gates (prefs : Preferences) (rig : String) (l : Library) (session : Session)
    (s : Scene) (a : Armature) (ha : s.armature rig = .ok a) :
    ∃ left start counts purged rounds report built,
      Started prefs rig s left start session ∧ purge prefs rig start = .ok (counts, purged) ∧
      rounds.map Round.pose = l.poses ∧ Linked purged rounds built ∧
      (∀ r ∈ rounds, r.Gated prefs rig l) ∧
      compileAll prefs rig l session s = (.ok report, .idle, built) ∧
      report.entries = left.entries ++ (rounds.flatMap fun r => r.report.entries) ++
        [(.info, toString (rounds.filter Round.built).length ++
          " poses created successfully")] := by
  cases session with
  | idle =>
    obtain ⟨counts, purged, rounds, report, built, hp, hposes, hlinked, hall, hb, hentries⟩ :=
      rebuild_rounds prefs l ha
    refine ⟨{}, s, counts, purged, rounds, report, built, ⟨rfl, rfl⟩, hp, hposes, hlinked, hall, ?_,
      hentries⟩
    rw [compileAll_idle, hb]
  | editing taken =>
    obtain ⟨left, start, a', hleave, ha'⟩ := Edit.leave_armature prefs taken ha
    obtain ⟨counts, purged, rounds, report, built, hp, hposes, hlinked, hall, hb, hentries⟩ :=
      rebuild_rounds prefs l ha'
    refine ⟨left, start, counts, purged, rounds, left ++ report, built, hleave, hp, hposes, hlinked,
      hall, ?_, ?_⟩
    · simp [compileAll, Session.isEditing, hleave, hb]
    · rw [List.append_assoc, ← hentries]
      rfl

def lidScene : Scene where
  objects := .ofList
    [("Face", { kind := .armature, armature := some { bones := .ofList [("Lid", {})] } })]

def lidLibrary : Library where
  poses :=
    [.ofChannel "Blink" "Face" "Lid" ⟨.location, .y⟩, .ofName "", .ofParts "Loop" "Loop" "",
      { Pose.ofParts "Off" "Blink" "Blink" with build := false }]

theorem inputs_loop :
    lidLibrary.inputs (.ofParts "Loop" "Loop" "") = .error (.comboCycle ["Loop", "Loop"]) := by
  have hpart : lidLibrary.partInputs ["Loop"] "Loop" = .error (.comboCycle ["Loop", "Loop"]) := by
    rw [Library.partInputs_eq]
    rfl
  unfold Library.inputs
  dsimp only [Pose.ofParts]
  rw [hpart]
  rfl

theorem compileAll_gates_lid :
    (∃ a, lidScene.armature "Face" = .ok a) ∧
    ∃ report built,
      compileAll {} "Face" lidLibrary (.editing {}) lidScene = (.ok report, .idle, built) ∧
      report.entries.getLast? = some (.info, "1 poses created successfully") := by
  refine ⟨⟨_, rfl⟩, ?_⟩
  obtain ⟨left, start, counts, purged, rounds, report, built, hstart, hpurge, hposes,
    hlinked, hall, hrun, hentries⟩ :=
      compileAll_gates {} "Face" lidLibrary (.editing {}) lidScene _ rfl
  refine ⟨report, built, hrun, ?_⟩
  obtain ⟨blink, _, rfl, hblink, hposes⟩ := List.map_eq_cons_iff.mp hposes
  obtain ⟨nameless, _, rfl, hnameless, hposes⟩ := List.map_eq_cons_iff.mp hposes
  obtain ⟨loop, _, rfl, hloop, hposes⟩ := List.map_eq_cons_iff.mp hposes
  obtain ⟨off, _, rfl, hoff, hposes⟩ := List.map_eq_cons_iff.mp hposes
  obtain rfl := List.map_eq_nil_iff.mp hposes
  have hscene : blink.before = purged := hlinked.1
  cases hstart
  cases hpurge
  have hblinks : blink.built = true := by
    rw [(hall blink (by simp)).built_iff, hblink, hscene]
    exact ⟨rfl, rfl, nofun⟩
  have hnone : nameless.built = false := by
    rw [Bool.eq_false_iff, ne_eq, (hall nameless (by simp)).built_iff, hnameless]
    rintro ⟨-, hvalid, -⟩
    cases hvalid
  have hcycle : loop.built = false := by
    rw [Bool.eq_false_iff, ne_eq, (hall loop (by simp)).built_iff, hloop]
    rintro ⟨-, -, hfree⟩
    exact hfree _ inputs_loop
  have hunflagged : off.built = false := by
    rw [Bool.eq_false_iff, ne_eq, (hall off (by simp)).built_iff, hoff]
    rintro ⟨hflag, -⟩
    cases hflag
  have hcounted : [blink, nameless, loop, off].filter Round.built = [blink] := by
    simp [hblinks, hnone, hcycle, hunflagged]
  rw [hentries, List.getLast?_concat, hcounted, List.length_singleton]
  decide

end PoseRig.Network
