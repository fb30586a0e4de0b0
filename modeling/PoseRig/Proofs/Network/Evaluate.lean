import PoseRig.Proofs.Network.Blend
import PoseRig.Proofs.Network.Turn
import PoseRig.Proofs.Pose.Library
import PoseRig.Proofs.Scene.Drivers

/-!
# Evaluating a compiled rig

A blend of channels has the same value on every scene that differs in constraints only, so all
drivers of a built pose give the least normalized reading, wherever in the run their turn comes. It
ends up as the time of each constraint of the pose and is handed over as its influence.
-/

set_option autoImplicit false

namespace PoseRig

namespace Input

/-- The variable of the input is a transform channel that reads `x` on the scene. -/
def ReadsChannel (i : Input) (s : Scene) (x : Scalar) : Prop :=
  ∃ object bone channel space reading,
    i.variableSource = .channel object bone channel space reading ∧
      s.channelValue object bone channel space reading = .ok x

theorem ReadsChannel.sourceValue {i : Input} {s t : Scene} {x : Scalar} (h : i.ReadsChannel s x)
    (hbare : t.bare = s.bare) : t.sourceValue i.variableSource = .ok x := by
  obtain ⟨object, bone, channel, space, reading, hsource, hvalue⟩ := h
  rw [hsource, Scene.sourceValue, ← Scene.channelValue_bare, hbare, Scene.channelValue_bare]
  exact hvalue

end Input

namespace Network

variable {mode : BlendMode} {inputs : List Input} {s : Scene} {read : Input → Scalar} {x : Scalar}

theorem readVariables_blend {vs : List (String × Input)}
    (h : ∀ v ∈ vs, s.sourceValue v.2.variableSource = .ok (read v.2)) :
    s.readVariables (vs.map fun v => ⟨v.1, v.2.variableSource⟩) =
      .ok (vs.map fun v => (v.1, read v.2)) := by
  induction vs with
  | nil => rfl
  | cons v r ih =>
    have hr := ih fun u hu => h u (List.mem_cons_of_mem v hu)
    simp only [List.map_cons, Scene.readVariables, h v List.mem_cons_self, hr]

theorem lookup_readings {vs : List (String × Input)} (hnodup : (vs.map Prod.fst).Nodup)
    {v : String × Input} (hv : v ∈ vs) :
    (vs.map fun v => (v.1, read v.2)).lookup v.1 = some (read v.2) := by
  have hnames : ((vs.map fun v => (v.1, read v.2)).map Prod.fst).Nodup := by rwa [List.map_map]
  exact lookup_of_mem hnames (List.mem_map_of_mem hv)

theorem driverValue_blend (hne : inputs ≠ []) (hfin : ∀ i ∈ inputs, i.IsFinite)
    (hflat : ∀ i ∈ inputs, ¬i.IsFlat) {path : Path} {d : Driver}
    (hd : blendDriver? mode inputs path = some d)
    (hread : ∀ i ∈ inputs, s.sourceValue i.variableSource = .ok (read i))
    (hx : weakest? (inputs.map fun i => i.normalized mode (read i)) = some x) :
    s.driverValue d = .ok x := by
  obtain ⟨text, htext, hparse⟩ := parse_expression? mode hne hfin
  rw [blendDriver?, htext] at hd
  obtain rfl := Option.some.inj hd
  have hvars :=
    readVariables_blend fun v (hv : v ∈ named 0 inputs) => hread v.2 (mem_of_mem_named hv)
  have heval := @eval_blendExpr mode inputs
    (fun name => ((named 0 inputs).map fun v => (v.1, read v.2)).lookup name) hne hfin
    (fun v => read v.2) fun v hv => lookup_readings (nodup_names inputs) hv
  have hnone : ¬∃ i ∈ inputs, i.IsFlat := by
    rintro ⟨i, hi, h⟩
    exact hflat i hi h
  rw [if_neg hnone] at heval
  obtain ⟨y, hy, hweakest⟩ := heval
  have hreadings : (named 0 inputs).map (fun v => v.2.normalized mode (read v.2)) =
      inputs.map fun i => i.normalized mode (read i) := by
    have h := congrArg (List.map fun i => i.normalized mode (read i)) (inputs_named 0 inputs)
    rwa [List.map_map] at h
  rw [hreadings, hx] at hweakest
  obtain rfl := Option.some.inj hweakest
  rw [Scene.driverValue]
  dsimp only
  rw [hparse]
  dsimp only
  rw [hvars]
  dsimp only
  rw [hy]

end Network

theorem Path.eq_influence {path : Path} {pose : String} (h : path.influenceTarget? = some pose) :
    path = .influence pose := by
  unfold influenceTarget? at h
  split at h
  · rename_i root key part hpath
    split at h
    · rename_i hnames
      obtain ⟨rfl, rfl⟩ := hnames
      obtain rfl := Option.some.inj h
      exact congrArg Path.mk hpath
    · cases h
  · cases h

namespace Network

variable {l : Library} {outputs : List DriverOutput} {name : String} {x : Scalar}

theorem handOver_cons (l : Library) (o : DriverOutput) (r : List DriverOutput) :
    (∃ x pose, o.value = some x ∧ o.dataPath = .influence pose ∧ (l.find? pose).isSome ∧
        (handOver l (o :: r)).2 = (handOver (l.setInfluence pose x) r).2) ∨
      (∀ x pose, o.value = some x → o.dataPath = .influence pose → l.find? pose = none) ∧
        (handOver l (o :: r)).2 = (handOver l r).2 := by
  rw [handOver]
  split
  · rename_i x pose hvalue htarget
    by_cases hfind : (l.find? pose).isSome = true
    · left
      rw [if_pos hfind]
      exact ⟨x, pose, hvalue, Path.eq_influence htarget, hfind, rfl⟩
    · right
      rw [if_neg hfind]
      constructor
      · intro y other _ hpath
        rw [hpath, Path.influenceTarget?_influence] at htarget
        rw [Option.some.inj htarget]
        simpa using hfind
      · rfl
  · rename_i hno
    right
    constructor
    · intro x pose hvalue hpath
      exact absurd (hpath ▸ Path.influenceTarget?_influence pose) (hno x pose hvalue)
    · rfl

variable {mode : BlendMode} {rig : String} {s : Scene} {o : Object} {entries : List Installed}

theorem Ledger.bound (h : Ledger mode o entries) (ho : s.object rig = .ok o) :
    ∀ d ∈ o.animationOrNew.drivers, s.Bound rig d.dataPath := by
  intro d hd
  rw [h.drivers] at hd
  have hpath := (dataPath_drivers mode entries).subset (List.mem_map_of_mem hd)
  obtain ⟨e, he, hpath⟩ := List.mem_flatMap.mp hpath
  rcases List.mem_append.mp hpath with htime | hinfluence
  · obtain ⟨q, hq, hq'⟩ := List.mem_map.mp htime
    obtain ⟨a, ha, hplaced⟩ := h.armature
    obtain ⟨c, hc⟩ := hplaced.carried q (List.mem_flatMap.mpr ⟨e, he, hq⟩)
    rw [← hq']
    exact .evalTime ⟨a, Scene.armature_of_object ho ha, hc⟩
  · rw [List.mem_singleton.mp hinfluence]
    exact .influence e.pose.name

theorem Ledger.nodup_dataPath (h : Ledger mode o entries) :
    (o.animationOrNew.drivers.map Driver.dataPath).Nodup := by
  obtain ⟨a, -, hplaced⟩ := h.armature
  rw [h.drivers]
  exact (nodup_paths hplaced.distinct h.names).sublist (dataPath_drivers mode entries)

theorem Ledger.exists_driver (h : Ledger mode o entries) {e : Installed} (he : e ∈ entries)
    (hne : e.inputs ≠ []) {path : Path} (hpath : path ∈ e.paths) :
    ∃ d ∈ o.animationOrNew.drivers, d.dataPath = path ∧
      blendDriver? mode e.inputs path = some d := by
  have hsome : ∃ d, blendDriver? mode e.inputs path = some d := by
    rw [blendDriver?, expression?, if_neg (by simpa using hne)]
    exact ⟨_, rfl⟩
  obtain ⟨d, hd⟩ := hsome
  refine ⟨d, ?_, dataPath_blendDriver? hd, hd⟩
  rw [h.drivers]
  exact List.mem_flatMap.mpr ⟨e, he, List.mem_filterMap.mpr ⟨path, hpath, hd⟩⟩

/-- What a run of the drivers gives for an entry whose inputs are channels that can be read: the
least of the normalized readings, on its influence and as the time of each of its constraints. -/
theorem Ledger.evaluated (h : Ledger mode o entries) (ho : s.object rig = .ok o) {e : Installed}
    (he : e ∈ entries) (hne : e.inputs ≠ []) {read : Input → Scalar}
    (hinputs : ∀ i ∈ e.inputs, i.IsFinite ∧ ¬i.IsFlat ∧ i.ReadsChannel s (read i))
    (hx : weakest? (e.inputs.map fun i => i.normalized mode (read i)) = some x) :
    (∃ applied, ⟨.influence e.pose.name, some x, applied⟩ ∈
        (Scene.runDrivers rig o.animationOrNew.drivers s).1) ∧
      ∀ q ∈ e.placed, ∃ c, (Scene.runDrivers rig o.animationOrNew.drivers s).2.Carries
        rig q.1 q.2 c ∧
        c.evalTime = x := by
  have hrun : ∀ path ∈ e.paths,
      (∃ applied, ⟨path, some x, applied⟩ ∈ (Scene.runDrivers rig o.animationOrNew.drivers s).1) ∧
        ∀ bone name, path = .evalTime bone name →
          ∃ c, (Scene.runDrivers rig o.animationOrNew.drivers s).2.Carries rig bone name c ∧
            c.evalTime = x := by
    intro path hpath
    obtain ⟨d, hd, rfl, hblend⟩ := h.exists_driver he hne hpath
    apply Scene.runDrivers_value (h.bound ho) h.nodup_dataPath hd
    intro t hbare
    apply driverValue_blend hne (fun i hi => (hinputs i hi).1)
      (fun i hi => (hinputs i hi).2.1) hblend _ hx
    intro i hi
    exact (hinputs i hi).2.2.sourceValue hbare
  constructor
  · exact (hrun _ (List.mem_append_right _ (List.mem_singleton_self _))).1
  · intro q hq
    exact (hrun _ (List.mem_append_left _ (List.mem_map_of_mem hq))).2 q.1 q.2 rfl

theorem evaluate_eq (ho : s.object rig = .ok o) (l : Library) :
    evaluate rig l s =
      .ok ((handOver l (Scene.runDrivers rig o.animationOrNew.drivers s).1).1,
        (Scene.runDrivers rig o.animationOrNew.drivers s).2,
        (handOver l (Scene.runDrivers rig o.animationOrNew.drivers s).1).2) := by
  rw [evaluate, Scene.evaluateDrivers, ho]

end Network

end PoseRig
