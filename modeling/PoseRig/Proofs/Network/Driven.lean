import PoseRig.Proofs.Network.Evaluate
import PoseRig.Proofs.Scene.Slots

/-!
# What an evaluation changes

The slots of the rig that applied drivers are bound to, and the influences of the poses that outputs
name. A driver without a value has no part in it: without that driver the scene and the library end
up the same.
-/

set_option autoImplicit false

namespace PoseRig

namespace Library

variable {l : Library}

def setInfluences (influence? : String → Option Scalar) (l : Library) : Library :=
  { l with poses := l.poses.mapIdx fun i p =>
      if l.position? p.name = some i then
        { p with influence := (influence? p.name).getD p.influence } else p }

theorem getElem?_updateFirst (name : String) (f : Pose → Pose) (ps : List Pose) (i : Nat) :
    (updateFirst name f ps)[i]? =
      if ps.findIdx? (fun p => p.name == name) = some i then ps[i]?.map f else ps[i]? := by
  induction ps generalizing i with
  | nil => rfl
  | cons p r ih =>
    by_cases hname : p.name = name
    · cases i <;> simp [updateFirst, List.findIdx?_cons, hname]
    · cases i <;> simp [updateFirst, List.findIdx?_cons, hname, ih]

theorem setInfluence_eq (l : Library) (name : String) (x : Scalar) :
    l.setInfluence name x = l.setInfluences fun n => if n = name then some x else none := by
  unfold setInfluence setInfluences
  congr 1
  apply List.ext_getElem?
  intro i
  rw [getElem?_updateFirst, List.getElem?_mapIdx]
  cases hi : l.poses[i]? with
  | none => simp
  | some p =>
    by_cases hname : p.name = name
    · subst hname
      simp only [Option.map_some, position?, if_true, Option.getD_some]
      split_ifs <;> rfl
    · have hposition : l.poses.findIdx? (fun p => p.name == name) ≠ some i := by
        intro h
        obtain ⟨hlt, hp, -⟩ := List.findIdx?_eq_some_iff_getElem.mp h
        rw [(List.getElem?_eq_some_iff.mp hi).2] at hp
        exact hname (by simpa using hp)
      simp [hposition, hname]

theorem position?_setInfluences (influence? : String → Option Scalar) (l : Library)
    (name : String) : (l.setInfluences influence?).position? name = l.position? name := by
  have hnames : (l.setInfluences influence?).poses.map (·.name) = l.poses.map (·.name) := by
    apply List.ext_getElem?
    intro i
    rw [List.getElem?_map, List.getElem?_map, setInfluences, List.getElem?_mapIdx, Option.map_map]
    congr 1
    funext p
    dsimp only [Function.comp_apply]
    split_ifs <;> rfl
  have hposition (m : Library) :
      m.position? name = (m.poses.map (·.name)).findIdx? fun n => n == name := by
    rw [List.findIdx?_map]
    rfl
  rw [hposition, hposition, hnames]

theorem setInfluences_setInfluences (f g : String → Option Scalar) (l : Library) :
    (l.setInfluences f).setInfluences g = l.setInfluences fun name => (g name).or (f name) := by
  have hposition := position?_setInfluences f l
  rw [setInfluences.eq_def g, setInfluences.eq_def fun name => (g name).or (f name)]
  simp only [hposition]
  simp only [setInfluences, List.mapIdx_mapIdx]
  congr 2
  funext i p
  dsimp only [Function.comp_apply]
  split_ifs with hp
  · cases g p.name <;> rfl
  · rfl

theorem setInfluences_congr {f g : String → Option Scalar}
    (h : ∀ p ∈ l.poses, f p.name = g p.name) : l.setInfluences f = l.setInfluences g := by
  unfold setInfluences
  congr 1
  apply List.mapIdx_eq_mapIdx_iff.mpr
  intro i hi
  rw [h _ (List.getElem_mem hi)]

theorem setInfluences_none (l : Library) : l.setInfluences (fun _ => none) = l := by
  have hpose (i : Nat) (p : Pose) :
      (if l.position? p.name = some i then { p with influence := Option.getD none p.influence }
        else p) = p :=
    ite_self p
  simp only [setInfluences, hpose]
  congr 1
  apply List.ext_getElem?
  intro i
  rw [List.getElem?_mapIdx, Option.map_id']

theorem isSome_find? (l : Library) (name : String) :
    (l.find? name).isSome = (l.position? name).isSome := by
  rw [Bool.eq_iff_iff, find?, position?, List.find?_isSome, List.findIdx?_isSome, List.any_eq_true]

def receives (l : Library) (output : DriverOutput) : Bool :=
  output.value.isSome && output.dataPath.influenceTarget?.any fun pose => (l.find? pose).isSome

theorem receives_setInfluence (l : Library) (name : String) (x : Scalar) :
    (l.setInfluence name x).receives = l.receives := by
  funext output
  simp only [receives, isSome_find?, setInfluence_eq, position?_setInfluences]

end Library

/-- The driver gives no value on the scene: its expression is no expression, or one of its variables
cannot be read, or the expression has no value where the variables have theirs. -/
inductive Driver.Broken (s : Scene) (d : Driver) : Prop
  | invalid {e : ExprError} (h : Expr.parse d.expression = .error e)
  | unreadable {v : Variable} (hv : v ∈ d.vars) {e : Fault} (h : s.sourceValue v.source = .error e)
  | undefined {expr : Expr} {values : List (String × Scalar)} {e : ExprError}
      (hexpr : Expr.parse d.expression = .ok expr) (hvalues : s.readVariables d.vars = .ok values)
      (h : (expr.eval fun name => values.lookup name) = .error e)

namespace Scene

theorem readVariables_error {s : Scene} {vs : List Variable} {v : Variable}
    (hv : v ∈ vs) {e : Fault}
    (h : s.sourceValue v.source = .error e) : ∃ e, s.readVariables vs = .error e := by
  induction vs with
  | nil => cases hv
  | cons w r ih =>
    rw [readVariables]
    rcases List.mem_cons.mp hv with rfl | hv
    · exact ⟨e, by rw [h]⟩
    · obtain ⟨e', hr⟩ := ih hv
      cases s.sourceValue w.source with
      | error e => exact ⟨e, rfl⟩
      | ok x => exact ⟨e', by rw [hr]⟩

theorem exists_unreadable {s : Scene} {vs : List Variable} {e : Fault}
    (h : s.readVariables vs = .error e) : ∃ v ∈ vs, s.sourceValue v.source = .error e := by
  induction vs with
  | nil => cases h
  | cons v r ih =>
    rw [readVariables] at h
    cases hv : s.sourceValue v.source with
    | error e' =>
      obtain rfl : e' = e := by simpa [hv] using h
      exact ⟨v, List.mem_cons_self, hv⟩
    | ok x =>
      cases hr : s.readVariables r with
      | error e' =>
        obtain ⟨w, hw, he⟩ := ih (by simpa [hv, hr] using h)
        exact ⟨w, List.mem_cons_of_mem v hw, he⟩
      | ok xs => simp [hv, hr] at h

theorem driverValue_error_iff {s : Scene} {d : Driver} :
    (∃ e, s.driverValue d = .error e) ↔ d.Broken s := by
  constructor
  · rintro ⟨e, he⟩
    unfold driverValue at he
    cases hexpr : Expr.parse d.expression with
    | error e' => exact .invalid hexpr
    | ok expr =>
      cases hvalues : s.readVariables d.vars with
      | error e' =>
        obtain ⟨v, hv, he'⟩ := exists_unreadable hvalues
        exact .unreadable hv he'
      | ok values =>
        cases heval : expr.eval fun name => values.lookup name with
        | error e' => exact .undefined hexpr hvalues heval
        | ok x => simp [hexpr, hvalues, heval] at he
  · intro h
    unfold driverValue
    cases h with
    | invalid h => exact ⟨_, by rw [h]⟩
    | unreadable hv h =>
      obtain ⟨e, he⟩ := readVariables_error hv h
      cases Expr.parse d.expression with
      | error e' => exact ⟨_, rfl⟩
      | ok expr => exact ⟨e, by rw [he]⟩
    | undefined hexpr hvalues h =>
      simp only [hexpr, hvalues, h]
      exact ⟨_, rfl⟩

end Scene

namespace Network

variable {rig : String} {s s' : Scene} {l l' : Library} {outputs : List DriverOutput}

def influenceOf? (output : DriverOutput) (pose : String) : Option Scalar :=
  if output.dataPath.influenceTarget? = some pose then output.value else none

/-- The last value that outputs have for the influence of a pose. -/
def lastInfluence? (outputs : List DriverOutput) (pose : String) : Option Scalar :=
  (outputs.filterMap fun output => influenceOf? output pose).getLast?

theorem lastInfluence?_cons (output : DriverOutput) (r : List DriverOutput) (pose : String) :
    lastInfluence? (output :: r) pose = (lastInfluence? r pose).or (influenceOf? output pose) := by
  rw [lastInfluence?, lastInfluence?, List.filterMap_cons]
  cases influenceOf? output pose with
  | none => exact (Option.or_none).symm
  | some x =>
    dsimp only
    rw [List.getLast?_cons]
    cases (r.filterMap fun output => influenceOf? output pose).getLast? <;> rfl

theorem library_handOver (l : Library) (outputs : List DriverOutput) :
    (handOver l outputs).2 = l.setInfluences (lastInfluence? outputs) := by
  induction outputs generalizing l with
  | nil => exact l.setInfluences_none.symm
  | cons output r ih =>
    have hcons : lastInfluence? (output :: r) =
        fun pose => (lastInfluence? r pose).or (influenceOf? output pose) :=
      funext (lastInfluence?_cons output r)
    rw [hcons]
    rcases handOver_cons l output r with ⟨x, pose, hvalue, hpath, -, hr⟩ | ⟨hnone, hr⟩
    · rw [hr, ih, Library.setInfluence_eq, Library.setInfluences_setInfluences]
      congr 1
      funext name
      congr 1
      rw [influenceOf?, hpath, Path.influenceTarget?_influence, hvalue]
      simp only [Option.some.injEq, eq_comm]
    · rw [hr, ih]
      apply Library.setInfluences_congr
      intro p hp
      have hown : influenceOf? output p.name = none := by
        rw [influenceOf?]
        split_ifs with htarget
        · cases hvalue : output.value with
          | none => rfl
          | some x =>
            have hfind := hnone x p.name hvalue (Path.eq_influence htarget)
            exact absurd (beq_self_eq_true p.name) (List.find?_eq_none.mp hfind p hp)
        · rfl
      rw [hown, Option.or_none]

theorem outputs_handOver (l : Library) (outputs : List DriverOutput) :
    (handOver l outputs).1 =
      outputs.map fun output => { output with applied := output.applied || l.receives output } := by
  induction outputs generalizing l with
  | nil => rfl
  | cons output r ih =>
    rw [handOver, List.map_cons]
    split
    · rename_i x pose hvalue htarget
      split_ifs with hfind
      · dsimp only
        rw [ih, Library.receives_setInfluence]
        simp [Library.receives, hvalue, htarget, hfind]
      · have hreceives : l.receives output = false := by simp [Library.receives, htarget, hfind]
        dsimp only
        rw [ih, hreceives, Bool.or_false]
    · rename_i hno
      have hreceives : l.receives output = false := by
        rw [Library.receives]
        cases hvalue : output.value with
        | none => rfl
        | some x =>
          cases htarget : output.dataPath.influenceTarget? with
          | none => rfl
          | some pose => exact absurd htarget (hno x pose hvalue)
      dsimp only
      rw [ih, hreceives, Bool.or_false]

def evaluated (rig : String) (ds : List Driver) (l : Library) (s : Scene) :
    List DriverOutput × Scene × Library :=
  ((handOver l (s.runDrivers rig ds).1).1, (s.runDrivers rig ds).2,
    (handOver l (s.runDrivers rig ds).1).2)

theorem lastInfluence?_handOver (l : Library) (outputs : List DriverOutput) :
    lastInfluence? (handOver l outputs).1 = lastInfluence? outputs := by
  funext pose
  rw [outputs_handOver, lastInfluence?, lastInfluence?, List.filterMap_map]
  rfl

theorem lastInfluence?_skip (first : List DriverOutput) {output : DriverOutput}
    (rest : List DriverOutput) (h : output.value = none) :
    lastInfluence? (first ++ output :: rest) = lastInfluence? (first ++ rest) := by
  funext pose
  have hnone : influenceOf? output pose = none := by
    rw [influenceOf?, h]
    exact ite_self none
  rw [lastInfluence?, lastInfluence?, List.filterMap_append, List.filterMap_append,
    List.filterMap_cons_none (f := fun output => influenceOf? output pose) hnone]

theorem evaluated_eraseIdx {before : List Driver} {d : Driver} {e : Fault}
    (h : (s.runDrivers rig before).2.driverValue d = .error e) (after : List Driver) (l : Library) :
    (evaluated rig (before ++ d :: after) l s).1[before.length]? = some ⟨d.dataPath, none, false⟩ ∧
      evaluated rig (before ++ after) l s =
        ((evaluated rig (before ++ d :: after) l s).1.eraseIdx before.length,
          (evaluated rig (before ++ d :: after) l s).2) := by
  have hd : Scene.runDriver rig (s.runDrivers rig before).2 d =
      (⟨d.dataPath, none, false⟩, (s.runDrivers rig before).2) := by
    rw [Scene.runDriver, h]
  -- both runs go on with the drivers after it from the scene that the drivers before it have left
  have hwith := Scene.runDrivers_append rig before (d :: after) s
  have hwithout := Scene.runDrivers_append rig before after s
  rw [Scene.runDrivers, hd] at hwith
  have hlength : (s.runDrivers rig before).1.length = before.length := by
    simpa using congrArg List.length (Scene.dataPath_runDrivers rig before s)
  have hat {α : Type} {first : List α} (hfirst : first.length = before.length) (a : α)
      (rest : List α) :
        (first ++ a :: rest)[before.length]? = some a ∧
          (first ++ a :: rest).eraseIdx before.length = first ++ rest := by
    rw [← hfirst]
    constructor
    · simp
    · rw [List.eraseIdx_append_of_length_le (Nat.le_refl _), Nat.sub_self, List.eraseIdx_cons_zero]
  simp only [evaluated, outputs_handOver, library_handOver, hwith, hwithout]
  rw [List.map_append, List.map_append, List.map_cons]
  obtain ⟨hget, herase⟩ := hat ((List.length_map _).trans hlength) _ _
  refine ⟨hget.trans rfl, ?_⟩
  rw [herase, lastInfluence?_skip _ _ rfl]

/-- Evaluating gives one output for each driver, in the order of the drivers. Of the scene only the
rig has changed, and of the rig only slots that the path of an applied output with a value leads to.
A driver without a value might as well not have been there. Of the library only influences have
changed: that of the first pose of a name is the last value that an output has for it. -/
theorem evaluate_frame (h : evaluate rig l s = .ok (outputs, s', l')) :
    ∃ o o', s.object rig = .ok o ∧ s' = s.setObject rig o' ∧ o'.fixed = o.fixed ∧
      outputs.map DriverOutput.dataPath = o.animationOrNew.drivers.map Driver.dataPath ∧
      (∀ slot : Object.Slot, slot.value? o' ≠ slot.value? o →
        ∃ path x, ⟨path, some x, true⟩ ∈ outputs ∧ slot.path? o = some path) ∧
      (∀ before d after, o.animationOrNew.drivers = before ++ d :: after →
        d.Broken (s.runDrivers rig before).2 →
          outputs[before.length]? = some ⟨d.dataPath, none, false⟩ ∧
            evaluated rig (before ++ after) l s = (outputs.eraseIdx before.length, s', l')) ∧
      l' = l.setInfluences (lastInfluence? outputs) := by
  cases ho : s.object rig with
  | error e => simp [evaluate, Scene.evaluateDrivers, ho] at h
  | ok o =>
    have hevaluated : evaluated rig o.animationOrNew.drivers l s = (outputs, s', l') :=
      Except.ok.inj ((evaluate_eq ho l).symm.trans h)
    obtain ⟨o', hscene, hframe⟩ := Scene.frame_runDrivers ho o.animationOrNew.drivers
    obtain ⟨houtputs, hs', hl'⟩ : (handOver l _).1 = outputs ∧ _ = s' ∧ (handOver l _).2 = l' := by
      simpa only [evaluated, Prod.mk.injEq] using hevaluated
    rw [outputs_handOver] at houtputs
    refine ⟨o, o', rfl, ?_, hframe.fixed, ?_, ?_, ?_, ?_⟩
    · exact hs'.symm.trans hscene
    · rw [← houtputs, List.map_map]
      exact Scene.dataPath_runDrivers rig o.animationOrNew.drivers s
    · intro slot hne
      obtain ⟨path, hpath, hslot⟩ := hframe.slots slot hne
      obtain ⟨output, hmem, rfl⟩ := List.mem_map.mp hpath
      obtain ⟨hmem, happlied⟩ := List.mem_filter.mp hmem
      obtain ⟨x, hx⟩ := Scene.value_of_applied rig o.animationOrNew.drivers s hmem happlied
      refine ⟨output.dataPath, x, ?_, hslot⟩
      rw [← houtputs]
      exact List.mem_map.mpr ⟨output, hmem, by rw [hx, Bool.true_or]⟩
    · intro before d after hdrivers hbroken
      obtain ⟨e, he⟩ := Scene.driverValue_error_iff.mpr hbroken
      have hskip := evaluated_eraseIdx he after l
      rwa [← hdrivers, hevaluated] at hskip
    · rw [← hl', library_handOver, ← houtputs, ← outputs_handOver, lastInfluence?_handOver]

def halfDrivenRig : Object :=
  { jawRig with
    animation := some {
      drivers := [⟨⟨[.key "mood"]⟩, "x", [⟨"x", .channel "Face" "" ⟨.location, .x⟩ .world .auto⟩]⟩,
        ⟨.influence "Open", "x", [⟨"x", .channel "Rig" "Jaw" ⟨.location, .y⟩ .local .auto⟩]⟩] } }

def halfDrivenScene : Scene where
  objects := .ofList [("Rig", halfDrivenRig)]

theorem evaluate_frame_halfDriven :
    ∃ outputs s' l' o', evaluate "Rig" { poses := [jawPose] } halfDrivenScene =
      .ok (outputs, s', l') ∧
      s' = halfDrivenScene.setObject "Rig" o' ∧ o'.fixed = halfDrivenRig.fixed ∧
      outputs.map DriverOutput.dataPath = [⟨[.key "mood"]⟩, .influence "Open"] ∧
      outputs[0]? = some ⟨⟨[.key "mood"]⟩, none, false⟩ ∧
      (Object.Slot.component "location" 0).value? o' = some (.float 0) := by
  have ho : halfDrivenScene.object "Rig" = .ok halfDrivenRig := rfl
  have hevaluate := evaluate_eq ho { poses := [jawPose] }
  obtain ⟨o, o', ho', hs', hfixed, hpaths, hslots, hbroken, -⟩ := evaluate_frame hevaluate
  obtain rfl : halfDrivenRig = o := Except.ok.inj (ho.symm.trans ho')
  refine ⟨_, _, _, o', hevaluate, hs', hfixed, hpaths, ?_, ?_⟩
  · exact (hbroken [] _ _ rfl (.unreadable List.mem_cons_self rfl)).1
  · by_cases hslot : (Object.Slot.component "location" 0).value? o' =
        (Object.Slot.component "location" 0).value? halfDrivenRig
    · exact hslot
    · obtain ⟨path, x, hmem, hpath⟩ := hslots _ hslot
      obtain rfl := Option.some.inj hpath
      have hdriven :
        (⟨[.field "location", .index 0]⟩ : Path) ∈ halfDrivenRig.animationOrNew.drivers.map
          Driver.dataPath := hpaths ▸ List.mem_map_of_mem hmem
      exact absurd hdriven (by decide)

end Network

end PoseRig
