import PoseRig.Proofs.Network.Names
import PoseRig.Proofs.Scene.EvalTime
import PoseRig.Proofs.Scene.Write

/-!
# Running drivers of a compiled rig

The drivers of a compiled rig are bound to evaluation times that the rig carries and to
influences. Such a driver changes at most the constraint it is bound to, so in a run over
distinct paths each value stays as it was written, and what one driver writes is not read through
the channels of another.
-/

set_option autoImplicit false

namespace PoseRig.Scene

variable {s : Scene} {rig bone name : String} {c : Constraint} {d : Driver} {ds : List Driver}
  {path : Path} {x : Scalar}

/-- Paths to the time of a carried constraint and paths to an influence. -/
inductive Bound (s : Scene) (rig : String) : Path → Prop where
  | evalTime {bone name : String} {c : Constraint} (h : s.Carries rig bone name c) :
      Bound s rig (.evalTime bone name)
  | influence (pose : String) : Bound s rig (.influence pose)

theorem Bound.carries (h : Bound s rig (.evalTime bone name)) : ∃ c, s.Carries rig bone name c := by
  generalize hp : Path.evalTime bone name = path at h
  cases h with
  | @evalTime bone' name' c hc =>
    obtain ⟨rfl, rfl⟩ := Path.evalTime_inj.mp hp
    exact ⟨c, hc⟩
  | influence pose => exact absurd hp (Path.evalTime_ne_influence bone name pose)

theorem dataPath_runDriver (rig : String) (s : Scene) (d : Driver) :
    (runDriver rig s d).1.dataPath = d.dataPath := by
  obtain ⟨e, -, hd⟩ | ⟨x, e, -, -, hd⟩ | ⟨x, s', -, -, hd⟩ := runDriver_outcome rig s d
  · rw [hd]
  · rw [hd]
  · rw [hd]

theorem runDriver_cases (h : Bound s rig d.dataPath) :
    (runDriver rig s d).2 = s ∨
      ∃ bone name c x, d.dataPath = .evalTime bone name ∧ s.Carries rig bone name c ∧
        (runDriver rig s d).2 = s.setTime rig bone name x := by
  unfold runDriver
  cases hvalue : s.driverValue d with
  | error e => exact Or.inl rfl
  | ok x =>
    dsimp only
    generalize hp : d.dataPath = path at h ⊢
    cases h with
    | @evalTime bone name c hc =>
      right
      rw [writeProperty_evalTime hc]
      exact ⟨bone, name, c, x, rfl, hc, rfl⟩
    | influence pose =>
      left
      obtain ⟨e, he⟩ := s.writeProperty_influence rig pose x
      rw [he]

theorem bare_runDriver (h : Bound s rig d.dataPath) : (runDriver rig s d).2.bare = s.bare := by
  rcases runDriver_cases h with hs | ⟨bone, name, c, x, -, -, hs⟩
  · rw [hs]
  · rw [hs, bare_setTime]

theorem Carries.runDriver (hc : s.Carries rig bone name c) (h : Bound s rig d.dataPath)
    (hne : d.dataPath ≠ .evalTime bone name) : (runDriver rig s d).2.Carries rig bone name c := by
  rcases runDriver_cases h with hs | ⟨bone', name', c', x, hpath, -, hs⟩
  · rw [hs]
    exact hc
  · rw [hs]
    apply hc.setTime
    rw [← hpath]
    exact hne

theorem Bound.runDriver (hp : Bound s rig path) (h : Bound s rig d.dataPath) :
    Bound (runDriver rig s d).2 rig path := by
  cases hp with
  | influence pose => exact .influence pose
  | @evalTime bone name c hc =>
    rcases runDriver_cases h with hs | ⟨bone', name', c', x, -, -, hs⟩
    · rw [hs]
      exact .evalTime hc
    · rw [hs]
      by_cases heq : Path.evalTime bone' name' = Path.evalTime bone name
      · obtain ⟨rfl, rfl⟩ := Path.evalTime_inj.mp heq
        exact .evalTime (hc.setTime_self x)
      · exact .evalTime (hc.setTime heq x)

theorem output_runDriver (rig : String) (hvalue : s.driverValue d = .ok x) :
    ∃ applied, (runDriver rig s d).1 = ⟨d.dataPath, some x, applied⟩ := by
  obtain ⟨e, he, -⟩ | ⟨y, e, hy, -, hd⟩ | ⟨y, s', hy, -, hd⟩ := runDriver_outcome rig s d
  · cases he.symm.trans hvalue
  · obtain rfl := Except.ok.inj (hy.symm.trans hvalue)
    exact ⟨false, by rw [hd]⟩
  · obtain rfl := Except.ok.inj (hy.symm.trans hvalue)
    exact ⟨true, by rw [hd]⟩

theorem carries_runDriver (hvalue : s.driverValue d = .ok x)
    (hpath : d.dataPath = .evalTime bone name) (hc : s.Carries rig bone name c) :
    (runDriver rig s d).2.Carries rig bone name (c.setTime x) := by
  have hrun : (runDriver rig s d).2 = s.setTime rig bone name x := by
    unfold runDriver
    rw [hvalue]
    dsimp only
    rw [hpath, writeProperty_evalTime hc]
  rw [hrun]
  exact hc.setTime_self x

theorem dataPath_runDrivers (rig : String) (ds : List Driver) (s : Scene) :
    (runDrivers rig ds s).1.map DriverOutput.dataPath = ds.map Driver.dataPath := by
  induction ds generalizing s with
  | nil => rfl
  | cons d r ih =>
    rw [runDrivers, List.map_cons, List.map_cons, dataPath_runDriver]
    congr 1
    exact ih _

theorem Carries.runDrivers (hc : s.Carries rig bone name c) (h : ∀ d ∈ ds, Bound s rig d.dataPath)
    (hne : Path.evalTime bone name ∉ ds.map Driver.dataPath) :
    (runDrivers rig ds s).2.Carries rig bone name c := by
  induction ds generalizing s with
  | nil => exact hc
  | cons d r ih =>
    have hd := h d List.mem_cons_self
    rw [List.map_cons, List.mem_cons, not_or] at hne
    apply ih
    · exact hc.runDriver hd (Ne.symm hne.1)
    · intro e he
      exact (h e (List.mem_cons_of_mem d he)).runDriver hd
    · exact hne.2

/-- A driver whose value does not depend on constraints gives it in the run, and it is what the
constraint that the driver is bound to has for its time when the run is over. -/
theorem runDrivers_value (h : ∀ d ∈ ds, Bound s rig d.dataPath)
    (hnodup : (ds.map Driver.dataPath).Nodup) (hd : d ∈ ds)
    (hvalue : ∀ t : Scene, t.bare = s.bare → t.driverValue d = .ok x) :
    (∃ applied, ⟨d.dataPath, some x, applied⟩ ∈ (runDrivers rig ds s).1) ∧
      ∀ bone name, d.dataPath = .evalTime bone name →
        ∃ c, (runDrivers rig ds s).2.Carries rig bone name c ∧ c.evalTime = x := by
  induction ds generalizing s with
  | nil => cases hd
  | cons e r ih =>
    have he := h e List.mem_cons_self
    have hr : ∀ d ∈ r, Bound (runDriver rig s e).2 rig d.dataPath := by
      intro d hd
      exact (h d (List.mem_cons_of_mem e hd)).runDriver he
    obtain ⟨hfresh, hrest⟩ := List.nodup_cons.mp hnodup
    rcases List.mem_cons.mp hd with rfl | hd
    · have hnow := hvalue s rfl
      constructor
      · obtain ⟨applied, hout⟩ := output_runDriver rig hnow
        exact ⟨applied, hout ▸ List.mem_cons_self⟩
      · intro bone name hpath
        rw [hpath] at he hfresh
        obtain ⟨c, hc⟩ := he.carries
        exact ⟨c.setTime x, (carries_runDriver hnow hpath hc).runDrivers hr hfresh, rfl⟩
    · have hbare := bare_runDriver he
      obtain ⟨⟨applied, hout⟩, htime⟩ := ih hr hrest hd (fun t ht => hvalue t (ht.trans hbare))
      exact ⟨⟨applied, List.mem_cons_of_mem _ hout⟩, htime⟩

end PoseRig.Scene
