import PoseRig.Proofs.Network.Recompile
import PoseRig.Proofs.Scene.Carries

/-!
# What a build leaves on the rig

A ledger lists, pose by pose, the inputs that a built pose was given and the constraints it placed.
The rig carries every constraint of the ledger, and its drivers are those of the entries in turn.
Distinct places and distinct pose names make the paths of the drivers distinct.
-/

set_option autoImplicit false

namespace PoseRig.Network

/-- A built pose, its inputs, and the bone and the name of each constraint it placed. -/
structure Installed where
  pose : Pose
  inputs : List Input
  placed : List (String × String)

namespace Installed

def onto (prefs : Preferences) (p : Pose) (inputs : List Input) (a : Armature) : Installed :=
  ⟨p, inputs, (place p (prefs.constraintName p.name) 0 p.bones a).placed⟩

def paths (e : Installed) : List Path := blendPaths e.pose.name e.placed

def drivers (mode : BlendMode) (e : Installed) : List Driver :=
  e.paths.filterMap (blendDriver? mode e.inputs)

end Installed

/-- Distinct places of an armature with one constraint in each. -/
structure Placed (a : Armature) (places : List (String × String)) : Prop where
  distinct : places.Nodup
  carried : ∀ q ∈ places, ∃ c, a.Carries q.1 q.2 c

structure Ledger (mode : BlendMode) (o : Object) (entries : List Installed) : Prop where
  armature : ∃ a, o.armature = some a ∧ Placed a (entries.flatMap Installed.placed)
  names : (entries.map fun e => e.pose.name).Nodup
  drivers : o.animationOrNew.drivers = entries.flatMap (Installed.drivers mode)

variable {prefs : Preferences} {rig : String} {l : Library} {p : Pose} {s s' : Scene} {o : Object}
  {a : Armature} {entries : List Installed} {mode : BlendMode} {inputs : List Input}
  {places : List (String × String)}

theorem Placed.addConstraint (h : Placed a places) {bone : String} {b : Bone}
    (hb : a.bones.get? bone = some b) (c : Constraint) :
    Placed (a.updateBone bone fun b => b.addConstraint c)
      (places ++ [(bone, b.freshName c.name)]) := by
  constructor
  · have hfree : (bone, b.freshName c.name) ∉ places := by
      intro hmem
      obtain ⟨d, b', hb', hd⟩ := h.carried _ hmem
      obtain rfl := Option.some.inj (hb'.symm.trans hb)
      exact Naming.fresh_not_mem b'.constraintNames c.name hd.mem_constraintNames
    exact List.nodup_append.mpr ⟨h.distinct, List.nodup_singleton _, fun q hq r hr heq =>
      hfree (List.mem_singleton.mp hr ▸ heq ▸ hq)⟩
  · intro q hq
    rcases List.mem_append.mp hq with hq | hq
    · obtain ⟨d, hd⟩ := h.carried q hq
      exists d
      apply hd.updateBone
      intro _ b' hb'
      exact hb'.addConstraint c
    · obtain rfl := List.mem_singleton.mp hq
      exact ⟨{ c with name := b.freshName c.name }, b.addConstraint c,
        Armature.get?_updateBone_self hb, b.carries_addConstraint c⟩

theorem Placed.place (h : Placed a places) (p : Pose) (name : String) (time : Scalar)
    (es : List BoneEntry) :
    Placed (place p name time es a).armature (places ++ (place p name time es a).placed) := by
  induction es generalizing a places with
  | nil => simpa [Network.place] using h
  | cons e r ih =>
    cases hb : a.bones.get? e.bone with
    | none => simpa [Network.place, hb] using ih h
    | some b =>
      have hrest := ih (h.addConstraint hb (p.constraintFor name time e))
      rw [List.append_assoc] at hrest
      simpa [Network.place, hb, Pose.constraintFor] using hrest

theorem Spread.new {name : String} {time : Scalar} {es : List BoneEntry}
    {placed : List (BoneEntry × String)} (h : Spread p name time es a placed)
      {bone : String} {b : Bone}
    (hb : a.bones.get? bone = some b) :
    Naming.New b.constraintNames ((constraintsOn p time bone placed).map (·.name)) := by
  have hnames : (constraintsOn p time bone placed).map (·.name) =
      (placed.filter fun q => q.1.bone == bone).map Prod.snd := by
    simp [constraintsOn]
  have hbone : ∀ q ∈ placed.filter (fun q => q.1.bone == bone), q ∈ placed ∧ q.1.bone = bone := by
    intro q hq
    simpa using List.mem_filter.mp hq
  rw [hnames]
  constructor
  · have hstart : Placed a [] := ⟨List.nodup_nil, fun q hq => absurd hq List.not_mem_nil⟩
    have hplaces := (hstart.place p name time es).distinct
    rw [List.nil_append, h.places, List.Nodup, List.pairwise_map] at hplaces
    rw [List.Nodup, List.pairwise_map]
    refine (hplaces.sublist List.filter_sublist).imp_of_mem fun {q r} hq hr hne hname => hne ?_
    rw [(hbone q hq).2, (hbone r hr).2, hname]
  · intro n hn
    obtain ⟨q, hq, rfl⟩ := List.mem_map.mp hn
    obtain ⟨hmem, rfl⟩ := hbone q hq
    exact h.free q hmem b hb

theorem paths_perm (entries : List Installed) :
    (entries.flatMap Installed.paths).Perm
      ((entries.flatMap Installed.placed).map (fun q => Path.evalTime q.1 q.2) ++
        entries.map fun e => Path.influence e.pose.name) := by
  induction entries with
  | nil => rfl
  | cons e r ih =>
    have hstep := ((ih.cons (Path.influence e.pose.name)).trans List.perm_middle.symm).append_left
      (e.placed.map fun q => Path.evalTime q.1 q.2)
    simpa [Installed.paths, blendPaths] using hstep

theorem nodup_paths (hplaces : (entries.flatMap Installed.placed).Nodup)
    (hnames : (entries.map fun e => e.pose.name).Nodup) :
    (entries.flatMap Installed.paths).Nodup := by
  rw [(paths_perm entries).nodup_iff]
  have htimes : ((entries.flatMap Installed.placed).map fun q => Path.evalTime q.1 q.2).Nodup := by
    apply hplaces.map
    intro q r h
    obtain ⟨hbone, hname⟩ := Path.evalTime_inj.mp h
    exact Prod.ext hbone hname
  have hinfluences : (entries.map fun e => Path.influence e.pose.name).Nodup := by
    have h := hnames.map fun _ _ h => Path.influence_inj.mp h
    rwa [List.map_map] at h
  apply htimes.append hinfluences
  intro path htime hinfluence
  obtain ⟨q, -, rfl⟩ := List.mem_map.mp htime
  obtain ⟨e, -, he⟩ := List.mem_map.mp hinfluence
  exact Path.evalTime_ne_influence q.1 q.2 e.pose.name he.symm

theorem dataPath_blendDriver? {path : Path} {d : Driver}
    (h : blendDriver? mode inputs path = some d) : d.dataPath = path := by
  obtain ⟨e, -, rfl⟩ := Option.map_eq_some_iff.mp h
  rfl

theorem dataPath_filterMap (mode : BlendMode) (inputs : List Input) (paths : List Path) :
    ((paths.filterMap (blendDriver? mode inputs)).map Driver.dataPath).Sublist paths := by
  induction paths with
  | nil => exact List.Sublist.refl _
  | cons path r ih =>
    cases hd : blendDriver? mode inputs path with
    | none =>
      rw [List.filterMap_cons_none hd]
      exact ih.cons path
    | some d =>
      rw [List.filterMap_cons_some hd, List.map_cons, dataPath_blendDriver? hd]
      exact ih.cons_cons path

theorem dataPath_drivers (mode : BlendMode) (entries : List Installed) :
    ((entries.flatMap (Installed.drivers mode)).map Driver.dataPath).Sublist
      (entries.flatMap Installed.paths) := by
  induction entries with
  | nil => exact List.Sublist.refl _
  | cons e r ih =>
    rw [List.flatMap_cons, List.flatMap_cons, List.map_append]
    exact (dataPath_filterMap mode e.inputs e.paths).append ih

theorem foldl_bindBlend (mode : BlendMode) (inputs : List Input) (paths : List Path) (o : Object) :
    paths.foldl (bindBlend mode inputs) o =
      (paths.filterMap (blendDriver? mode inputs)).foldl Object.addDriver o := by
  induction paths generalizing o with
  | nil => rfl
  | cons path r ih =>
    rw [List.foldl_cons, ih]
    cases hd : blendDriver? mode inputs path with
    | none => rw [List.filterMap_cons_none hd, bindBlend, hd]
    | some d => rw [List.filterMap_cons_some hd, List.foldl_cons, bindBlend, hd]

theorem drivers_foldl_addDriver {ds : List Driver} (hnodup : (ds.map Driver.dataPath).Nodup)
    (o : Object) :
    (ds.foldl Object.addDriver o).animationOrNew.drivers =
      (o.animationOrNew.drivers.filter fun e => !(ds.map Driver.dataPath).contains e.dataPath) ++
        ds := by
  induction ds generalizing o with
  | nil => simp
  | cons d r ih =>
    obtain ⟨hd, hr⟩ := List.nodup_cons.mp hnodup
    have hone : (o.addDriver d).animationOrNew.drivers =
        (o.animationOrNew.drivers.filter fun e => !(e.dataPath == d.dataPath)) ++ [d] := rfl
    have hlast : ([d].filter fun e => !(r.map Driver.dataPath).contains e.dataPath) = [d] := by
      simpa using hd
    have hboth : ∀ e : Driver, (!(r.map Driver.dataPath).contains e.dataPath &&
        !(e.dataPath == d.dataPath)) = !((d :: r).map Driver.dataPath).contains e.dataPath := by
      intro e
      rw [List.map_cons, List.contains_cons, Bool.not_or, Bool.and_comm]
    rw [List.foldl_cons, ih hr, hone, List.filter_append, hlast, List.filter_filter,
      List.append_assoc]
    simp only [hboth, List.singleton_append]

/-- A built pose with its inputs, and its entries that found their bone with the name of the
constraint that each of them got. -/
structure Built where
  pose : Pose
  inputs : List Input
  placed : List (BoneEntry × String)

namespace Built

def installed (e : Built) : Installed := ⟨e.pose, e.inputs, e.placed.map fun q => (q.1.bone, q.2)⟩

def paths (e : Built) : List Path :=
  (e.placed.map fun q => Path.evalTime q.1.bone q.2) ++ [Path.influence e.pose.name]

def drivers (mode : BlendMode) (e : Built) : List Driver :=
  match expression? mode e.inputs with
  | none => []
  | some blend =>
    e.paths.map fun path =>
      ⟨path, blend, (named 0 e.inputs).map fun v => ⟨v.1, v.2.variableSource⟩⟩

theorem paths_installed (e : Built) : e.installed.paths = e.paths := by
  simp [Installed.paths, installed, blendPaths, paths]

theorem drivers_installed (mode : BlendMode) (e : Built) :
    e.installed.drivers mode = e.drivers mode := by
  rw [Installed.drivers, paths_installed, drivers]
  unfold blendDriver?
  rw [show e.installed.inputs = e.inputs from rfl]
  cases expression? mode e.inputs with
  | none => exact List.filterMap_eq_nil_iff.mpr fun _ _ => rfl
  | some blend => exact congrFun List.filterMap_eq_map' e.paths

theorem drivers_placed {placed : List (String × String)} (mode : BlendMode) (e : Built)
    (h : e.installed.placed = placed) :
    (blendPaths e.pose.name placed).filterMap (blendDriver? mode e.inputs) = e.drivers mode := by
  subst h
  exact e.drivers_installed mode

end Built

/-- What the rig object `o` with the armature `a` becomes when a pose is built onto it: each bone
has one constraint more for each entry that found it, a property is named like the pose, and the
drivers on the new times and on the influence are those of the pose. -/
structure Built.Onto (prefs : Preferences) (e : Built) (o : Object) (a : Armature) (o' : Object) :
    Prop where
  entries : e.placed.map Prod.fst = e.pose.bones.filter fun b => a.bones.contains b.bone
  armature : o'.armature = some
    { a with bones := a.bones.map fun n b =>
        { b with constraints := b.constraints ++ constraintsOn e.pose 0 n e.placed } }
  drivers : o'.animationOrNew.drivers =
    (o.animationOrNew.drivers.filter fun d =>
      !((e.drivers prefs.blendMode).map Driver.dataPath).contains d.dataPath) ++
      e.drivers prefs.blendMode
  properties : o'.properties = o.properties.insert (prefs.constraintName e.pose.name) (.float 0)

theorem Spread.nodup_drivers {e : Built} {name : String}
    (h : Spread e.pose name 0 e.pose.bones a e.placed) (mode : BlendMode) :
    ((e.drivers mode).map Driver.dataPath).Nodup := by
  have hstart : Placed a [] := ⟨List.nodup_nil, fun q hq => absurd hq List.not_mem_nil⟩
  have hplaces : ([e.installed].flatMap Installed.placed).Nodup := by
    have hdistinct := (hstart.place e.pose name 0 e.pose.bones).distinct
    rw [List.nil_append, h.places] at hdistinct
    rwa [List.flatMap_singleton]
  have hpaths : e.installed.paths.Nodup := by
    simpa using nodup_paths hplaces (List.nodup_singleton _)
  rw [← e.drivers_installed]
  exact hpaths.sublist (dataPath_filterMap mode e.inputs e.installed.paths)

theorem drivers_install {e : Built}
    (hplaced : e.installed.placed =
      (place e.pose (prefs.constraintName e.pose.name) 0 e.pose.bones a).placed)
    (hnodup : ((e.drivers prefs.blendMode).map Driver.dataPath).Nodup) :
    (install prefs e.inputs e.pose a o).2.animationOrNew.drivers =
      (o.animationOrNew.drivers.filter fun d =>
        !((e.drivers prefs.blendMode).map Driver.dataPath).contains d.dataPath) ++
        e.drivers prefs.blendMode := by
  simp only [install]
  rw [foldl_bindBlend, e.drivers_placed prefs.blendMode hplaced, drivers_foldl_addDriver hnodup]
  rfl

theorem Spread.onto {e : Built}
    (h : Spread e.pose (prefs.constraintName e.pose.name) 0 e.pose.bones a e.placed) :
    e.Onto prefs o a (install prefs e.inputs e.pose a o).2 := by
  constructor
  · exact h.entries
  · rw [armature_install, h.armature]
    rfl
  · exact drivers_install h.places.symm (h.nodup_drivers prefs.blendMode)
  · exact view_foldl_bindBlend Object.properties (fun _ _ => rfl) _ _ _ _

theorem drivers_purge (prefs : Preferences) (o : Object) :
    (o.purge prefs).animationOrNew.drivers =
      o.animationOrNew.drivers.filter fun d => !prefs.isCompiledPath d.dataPath := by
  obtain ⟨kind, transform, armature, animation, properties⟩ := o
  cases animation with
  | none => rfl
  | some animation => rfl

end PoseRig.Network
