import PoseRig.Proofs.Network.Compile
import PoseRig.Proofs.Network.Place

/-!
# Compiling again

Purging takes back whatever compiling added: constraints under marked names, drivers through them or
onto an influence, and the custom property of the pose. So the purged scene does not depend on what
was compiled before, and building twice is building once.
-/

set_option autoImplicit false

namespace PoseRig

theorem Animation.removeWhere_add (a : Animation) (d : Driver) {test : Path → Bool}
    (h : test d.dataPath = true) : (a.add d).removeWhere test = a.removeWhere test := by
  have hkept : ∀ e : Driver,
      (!test e.dataPath && !(e.dataPath == d.dataPath)) = !test e.dataPath := by
    intro e
    by_cases he : e.dataPath = d.dataPath
    · simp [he, h]
    · simp [he]
  simp [add, removeWhere, List.filter_append, List.filter_filter, hkept, h]

namespace Object

variable {prefs : Preferences} {o : Object}

theorem purge_addDriver {d : Driver} (hp : prefs.isCompiledPath d.dataPath = true)
    (ha : o.animation.isSome) : (o.addDriver d).purge prefs = o.purge prefs := by
  obtain ⟨a, ha⟩ := Option.isSome_iff_exists.mp ha
  simp [purge, addDriver, animationOrNew, ha, Animation.removeWhere_add a d hp]

theorem purge_setProperty {name : String} (v : Value) (h : prefs.isCompiled name = true) :
    (o.setProperty name v).purge prefs = o.purge prefs := by
  have hfilter :=
    Table.filter_insert o.properties name v (fun n => !prefs.isCompiled n) (by simp [h])
  simp [purge, setProperty, hfilter]

theorem purge_place (hdot : '.' ∉ prefs.constraintPrefix.toList) {a : Armature}
    (ha : o.armature = some a) (p : Pose) (time : Scalar) (es : List BoneEntry) :
    ({ o with armature := some (Network.place p (prefs.constraintName p.name) time es a).armature }
      : Object).purge prefs = o.purge prefs := by
  have hbones := Network.mapBones_remove_place p (prefs.constraintName p.name) time
    (fun taken => Preferences.isCompiled_fresh hdot taken p.name) es a
  simp [purge, ha, hbones]

theorem purge_purge (prefs : Preferences) (o : Object) :
    (o.purge prefs).purge prefs = o.purge prefs := by
  have hbones : ∀ a : Armature,
      (a.mapBones fun _ b => b.removeConstraints prefs.isCompiled).mapBones
      (fun _ b => b.removeConstraints prefs.isCompiled) =
        a.mapBones fun _ b => b.removeConstraints prefs.isCompiled := by
    intro a
    simp [Armature.mapBones, Table.map_map, Bone.removeConstraints_idem]
  have hdrivers : ∀ a : Animation, (a.removeWhere prefs.isCompiledPath).removeWhere
      prefs.isCompiledPath = a.removeWhere prefs.isCompiledPath := by
    intro a
    simp [Animation.removeWhere]
  have hproperties := Table.filter_filter o.properties fun n => !prefs.isCompiled n
  simp [purge, Function.comp_def, hbones, hdrivers, hproperties]

end Object

namespace Network

variable {prefs : Preferences} {rig : String} {s s' : Scene} {o : Object}

theorem purge_bindBlend (mode : BlendMode) (inputs : List Input) {path : Path}
    (hp : prefs.isCompiledPath path = true) (ha : o.animation.isSome) :
    (bindBlend mode inputs o path).purge prefs = o.purge prefs ∧
      (bindBlend mode inputs o path).animation.isSome := by
  unfold bindBlend
  cases hd : blendDriver? mode inputs path with
  | none => exact ⟨rfl, ha⟩
  | some d =>
    have hpath : d.dataPath = path := by
      obtain ⟨e, -, rfl⟩ := Option.map_eq_some_iff.mp hd
      rfl
    exact ⟨Object.purge_addDriver (hpath ▸ hp) ha, rfl⟩

theorem purge_foldl_bindBlend (mode : BlendMode) (inputs : List Input) {paths : List Path}
    (hp : ∀ path ∈ paths, prefs.isCompiledPath path = true) (ha : o.animation.isSome) :
    (paths.foldl (bindBlend mode inputs) o).purge prefs = o.purge prefs ∧
      (paths.foldl (bindBlend mode inputs) o).animation.isSome := by
  induction paths generalizing o with
  | nil => exact ⟨rfl, ha⟩
  | cons path r ih =>
    obtain ⟨hpurge, hsome⟩ := purge_bindBlend mode inputs (hp path (by simp)) ha
    obtain ⟨hrest, hsome'⟩ := ih (fun q hq => hp q (by simp [hq])) hsome
    exact ⟨hrest.trans hpurge, hsome'⟩

theorem blendPaths_compiled (hdot : '.' ∉ prefs.constraintPrefix.toList) (p : Pose) (time : Scalar)
    (es : List BoneEntry) (a : Armature) :
    ∀ path ∈ blendPaths p.name (place p (prefs.constraintName p.name) time es a).placed,
      prefs.isCompiledPath path = true := by
  intro path hpath
  rcases List.mem_append.mp hpath with h | h
  · obtain ⟨⟨bone, final⟩, hb, rfl⟩ := List.mem_map.mp h
    obtain ⟨taken, rfl⟩ := mem_placed hb
    rw [Preferences.isCompiledPath_evalTime]
    exact Preferences.isCompiled_fresh hdot taken p.name
  · rw [List.mem_singleton.mp h]
    exact prefs.isCompiledPath_influence p.name

theorem purge_install (hdot : '.' ∉ prefs.constraintPrefix.toList) (inputs : List Input) (p : Pose)
    {a : Armature} (hoa : o.armature = some a) (had : o.animation.isSome) :
    (install prefs inputs p a o).2.purge prefs = o.purge prefs ∧
      (install prefs inputs p a o).2.animation.isSome := by
  have hpaths := blendPaths_compiled hdot p 0 p.bones a
  obtain ⟨hpurge, hsome⟩ := purge_foldl_bindBlend prefs.blendMode inputs hpaths
    (show (({ o with armature := some (place p (prefs.constraintName p.name) 0 p.bones a).armature }
      : Object).setProperty (prefs.constraintName p.name) (.float 0)).animation.isSome from had)
  refine ⟨?_, hsome⟩
  rw [install, hpurge, Object.purge_setProperty _ (prefs.isCompiled_constraintName p.name),
    Object.purge_place hdot hoa]

theorem purge_eq (ho : s.object rig = .ok o) :
    purge prefs rig s = .ok (o.purgeCounts prefs, s.setObject rig (o.purge prefs)) := by
  simp [purge, ho, Scene.updateObject_eq ho]

/-- A run of compilations ends on a rig that purges to what the rig it started from purges to; the
rest of the scene is untouched. -/
theorem compileEach_frame (hdot : '.' ∉ prefs.constraintPrefix.toList)
    {calls : List (Library × Pose)} (h : compileEach prefs rig calls s = .ok s')
    (ho : s.object rig = .ok o) (had : o.animation.isSome) :
    ∃ o', s' = s.setObject rig o' ∧ o'.purge prefs = o.purge prefs ∧ o'.animation.isSome := by
  induction calls generalizing s o with
  | nil =>
    obtain rfl := Except.ok.inj h
    exact ⟨o, (Scene.setObject_self ho).symm, rfl, had⟩
  | cons call r ih =>
    obtain ⟨l, p⟩ := call
    cases hc : compile prefs rig l p s with
    | error e => simp [compileEach, hc] at h
    | ok result =>
      obtain ⟨report, s₁⟩ := result
      obtain ⟨inputs, o₁, a, -, ho₁, ha, -, rfl⟩ := compile_eq_ok.mp hc
      obtain rfl := Except.ok.inj (ho.symm.trans ho₁)
      obtain ⟨hpurge, hsome⟩ := purge_install hdot inputs p ha had
      obtain ⟨o', rfl, hpurge', hsome'⟩ := ih (by simpa [compileEach, hc] using h)
        (Scene.object_setObject _ _ _) hsome
      exact ⟨o', Scene.setObject_setObject _ _ _ _, hpurge'.trans hpurge, hsome'⟩

theorem purge_compileEach (hdot : '.' ∉ prefs.constraintPrefix.toList)
    {calls : List (Library × Pose)} (h : compileEach prefs rig calls s = .ok s')
    (ho : s.object rig = .ok o) (had : o.animation.isSome) :
    ∃ counts, purge prefs rig s' = .ok (counts, s.setObject rig (o.purge prefs)) := by
  obtain ⟨o', rfl, hpurge, -⟩ := compileEach_frame hdot h ho had
  refine ⟨o'.purgeCounts prefs, ?_⟩
  rw [purge_eq (Scene.object_setObject _ _ _), Scene.setObject_setObject, hpurge]

theorem armature_purge (prefs : Preferences) {a : Armature} (ha : o.armature = some a) :
    ∃ a', (o.purge prefs).armature = some a' := ⟨_, by simp only [Object.purge, ha]; rfl⟩

/-- Building depends on the scene only through the purged scene, and leads back to that scene. -/
theorem rebuild_ok (hdot : '.' ∉ prefs.constraintPrefix.toList) (l : Library)
    (ho : s.object rig = .ok o) (hoa : o.armature.isSome) (had : o.animation.isSome) :
    ∃ report s', rebuild prefs rig l s = (.ok report, s') ∧
      (∃ counts, purge prefs rig s' = .ok (counts, s.setObject rig (o.purge prefs))) ∧
      ∀ t counts, purge prefs rig t = .ok (counts, s.setObject rig (o.purge prefs)) →
        rebuild prefs rig l t = (.ok report, s') := by
  obtain ⟨a, ha⟩ := Option.isSome_iff_exists.mp hoa
  obtain ⟨a', ha'⟩ := armature_purge prefs ha
  have hrig := Scene.object_setObject s rig (o.purge prefs)
  have hsome : (o.purge prefs).animation.isSome := by simpa [Object.purge] using had
  obtain ⟨report, n, s', hb, calls, hcalls⟩ :=
    buildEach_ok prefs l l.poses (Scene.armature_of_object hrig ha')
  have hresult : ∀ t counts, purge prefs rig t = .ok (counts, s.setObject rig (o.purge prefs)) →
      rebuild prefs rig l t =
        (.ok (report ++ .info (toString n ++ " poses created successfully")), s') := by
    intro t counts ht
    simp [rebuild, ht, hb]
  refine ⟨_, s', hresult s _ (purge_eq ho), ?_, hresult⟩
  obtain ⟨counts, hcounts⟩ := purge_compileEach hdot hcalls hrig hsome
  rw [Object.purge_purge, Scene.setObject_setObject] at hcounts
  exact ⟨counts, hcounts⟩

theorem compileAll_idle (prefs : Preferences) (rig : String) (l : Library) (s : Scene) :
    compileAll prefs rig l .idle s =
      ((rebuild prefs rig l s).1, .idle, (rebuild prefs rig l s).2) := rfl

/-- A purge keeps every driver, property and constraint of the rig that is not compiled, in its
place, and after any run of compilations it gives the very scene that it gave before. So building
again gives the scene and the report of building once, with or without a purge in between. -/
theorem purge_absorbs_compiling (prefs : Preferences) (rig : String) (s : Scene) (o : Object)
    (hdot : '.' ∉ prefs.constraintPrefix.toList) (ho : s.object rig = .ok o)
    (hoa : o.armature.isSome) (had : o.animation.isSome) :
    ∃ purged, purged = s.setObject rig
        { o with
          animation := o.animation.map fun n =>
            { n with drivers := n.drivers.filter fun d => !prefs.isCompiledPath d.dataPath }
          properties := o.properties.filter fun name _ => !prefs.isCompiled name
          armature := o.armature.map fun a =>
            { a with bones := a.bones.map fun _ b =>
                { b with constraints := b.constraints.filter fun c =>
                  !prefs.isCompiled c.name } } } ∧
      (∃ counts, purge prefs rig s = .ok (counts, purged)) ∧
      (∀ calls s', compileEach prefs rig calls s = .ok s' →
        ∃ counts', purge prefs rig s' = .ok (counts', purged)) ∧
      ∀ l, ∃ report built, compileAll prefs rig l .idle s = (.ok report, .idle, built) ∧
        compileAll prefs rig l .idle built = (.ok report, .idle, built) ∧
        (∃ counts, purge prefs rig built = .ok (counts, purged)) ∧
        compileAll prefs rig l .idle purged = (.ok report, .idle, built) := by
  refine ⟨s.setObject rig (o.purge prefs), rfl, ⟨_, purge_eq ho⟩, ?_, ?_⟩
  · exact fun calls s' h => purge_compileEach hdot h ho had
  · intro l
    obtain ⟨report, built, hr, ⟨counts, hcounts⟩, hsame⟩ := rebuild_ok hdot l ho hoa had
    have hpurged : purge prefs rig (s.setObject rig (o.purge prefs)) =
        .ok ((o.purge prefs).purgeCounts prefs, s.setObject rig (o.purge prefs)) := by
      rw [purge_eq (Scene.object_setObject _ _ _), Object.purge_purge, Scene.setObject_setObject]
    refine ⟨report, built, ?_, ?_, ⟨counts, hcounts⟩, ?_⟩
    · rw [compileAll_idle, hr]
    · rw [compileAll_idle, hsame built counts hcounts]
    · rw [compileAll_idle, hsame _ _ hpurged]

def jawRig : Object where
  kind := .armature
  armature := some
    { bones := .ofList [("Jaw", { constraints := [{ name := "Limit" }, { name := "AP-Open" }] })] }
  animation := some {}

def jawScene : Scene := { objects := .ofList [("Rig", jawRig)] }

def jawPose : Pose :=
  (Pose.ofChannel "Open" "Rig" "Jaw" ⟨.location, .y⟩).withBones ["Jaw", "Jaw"]

theorem purge_absorbs_compiling_jaw :
    (∃ s' counts counts' purged,
      compileEach {} "Rig" [({ poses := [jawPose] }, jawPose), ({ poses := [jawPose] }, jawPose)]
        jawScene = .ok s' ∧
      purge {} "Rig" jawScene = .ok (counts, purged) ∧ purge {} "Rig" s' = .ok (counts', purged)) ∧
    ∃ report built,
      compileAll {} "Rig" { poses := [jawPose] } .idle jawScene = (.ok report, .idle, built) ∧
      compileAll {} "Rig" { poses := [jawPose] } .idle built = (.ok report, .idle, built) := by
  obtain ⟨purged, -, ⟨counts, hp⟩, hrun, hbuild⟩ :=
    purge_absorbs_compiling {} "Rig" jawScene jawRig (by decide) rfl rfl rfl
  obtain ⟨counts', hp'⟩ :=
    hrun [({ poses := [jawPose] }, jawPose), ({ poses := [jawPose] }, jawPose)] _ rfl
  obtain ⟨report, built, hb, hb', -⟩ := hbuild { poses := [jawPose] }
  exact ⟨⟨_, counts, counts', purged, rfl, hp, hp'⟩, report, built, hb, hb'⟩

end Network

end PoseRig
