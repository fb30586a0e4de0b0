import PoseRig.Proofs.Network.Gate
import PoseRig.Proofs.Network.Ledger

/-!
# The network that a build lays out

A build appends constraints to bones and drivers to the rig, pose by pose. The constraints on a bone
come in list order of the poses and in entry order within a pose, each under a name that was free,
and the drivers follow the names that the constraints ended up with. A driver replaces whatever was
bound to its path, so a driver of the rig that a purge keeps stays unless its path is one that a
pose needs.
-/

set_option autoImplicit false

namespace PoseRig.Network

variable {prefs : Preferences} {rig : String} {l : Library} {p : Pose} {s s' : Scene}
  {o o₁ : Object} {a a₁ : Armature} {mode : BlendMode} {built : List Built}

def laidOn (built : List Built) (bone : String) : List Constraint :=
  built.flatMap fun e => constraintsOn e.pose 0 bone e.placed

def laidDrivers (mode : BlendMode) (built : List Built) : List Driver :=
  built.flatMap (Built.drivers mode)

/-- What built poses have made of the rig object `o` with the armature `a`. -/
structure Laid (mode : BlendMode) (o : Object) (a : Armature) (built : List Built) (o₁ : Object)
    (a₁ : Armature) : Prop where
  armature : o₁.armature = some a₁
  bones : a₁.bones = a.bones.map fun n b => b.extend (laidOn built n)
  placed : Placed a₁ (built.flatMap fun e => e.installed.placed)
  free : ∀ e ∈ built, ∀ q ∈ e.placed, ∀ b, a.bones.get? q.1.bone = some b → q.2 ∉ b.constraintNames
  names : (built.map fun e => e.pose.name).Nodup
  drivers : o₁.animationOrNew.drivers =
    (o.animationOrNew.drivers.filter fun d =>
      !((laidDrivers mode built).map Driver.dataPath).contains d.dataPath) ++ laidDrivers mode built

/-- A record of a built pose that agrees with the library and the rig it was built on. -/
structure Built.Faithful (prefs : Preferences) (l : Library) (a : Armature) (e : Built) : Prop where
  inputs : l.inputs e.pose = .ok e.inputs
  entries : e.placed.map Prod.fst = e.pose.bones.filter fun b => a.bones.contains b.bone
  named : ∀ q ∈ e.placed, ∃ taken, q.2 = Naming.fresh taken (prefs.constraintName e.pose.name)

theorem Laid.start (ha : o.armature = some a) : Laid mode o a [] o a := by
  constructor
  · exact ha
  · exact (Table.map_eq_self a.bones fun n b _ => b.extend_nil).symm
  · exact ⟨List.nodup_nil, fun q hq => absurd hq List.not_mem_nil⟩
  · intro e he
    cases he
  · exact List.nodup_nil
  · simp [laidDrivers]

theorem laidDrivers_concat (mode : BlendMode) (built : List Built) (e : Built) :
    laidDrivers mode (built ++ [e]) = laidDrivers mode built ++ e.drivers mode := by
  rw [laidDrivers, List.flatMap_append, List.flatMap_singleton, laidDrivers]

theorem nodup_laidDrivers (mode : BlendMode)
    (hplaces : (built.flatMap fun e => e.installed.placed).Nodup)
    (hnames : (built.map fun e => e.pose.name).Nodup) :
    ((laidDrivers mode built).map Driver.dataPath).Nodup := by
  have hpaths : ((built.map Built.installed).flatMap Installed.paths).Nodup := by
    apply nodup_paths
    · rwa [List.flatMap_map]
    · rwa [List.map_map]
  have hsub := dataPath_drivers mode (built.map Built.installed)
  rw [List.flatMap_map] at hsub
  simp only [Built.drivers_installed] at hsub
  exact hpaths.sublist hsub

theorem Laid.faithful {e : Built} (h : Laid mode o a built o₁ a₁)
    (hinputs : l.inputs e.pose = .ok e.inputs)
    (hspread : Spread e.pose (prefs.constraintName e.pose.name) 0 e.pose.bones a₁ e.placed) :
    e.Faithful prefs l a := by
  have hcontains : ∀ n, a₁.bones.contains n = a.bones.contains n := by
    intro n
    rw [h.bones]
    simp [Table.contains, Table.get?_map]
  constructor
  · exact hinputs
  · simpa only [hcontains] using hspread.entries
  · exact fun q hq => hspread.named hq

/-- Compiling a pose with a new name lays out one more pose. -/
theorem Laid.install {e : Built} (h : Laid prefs.blendMode o a built o₁ a₁)
    (hspread : Spread e.pose (prefs.constraintName e.pose.name) 0 e.pose.bones a₁ e.placed)
    (hname : ∀ d ∈ built, d.pose.name ≠ e.pose.name) :
    Laid prefs.blendMode o a (built ++ [e]) (Network.install prefs e.inputs e.pose a₁ o₁).2
      (place e.pose (prefs.constraintName e.pose.name) 0 e.pose.bones a₁).armature := by
  have hplaced : Placed (place e.pose (prefs.constraintName e.pose.name) 0 e.pose.bones a₁).armature
      ((built ++ [e]).flatMap fun e => e.installed.placed) := by
    have hplace := h.placed.place e.pose (prefs.constraintName e.pose.name) 0 e.pose.bones
    rw [hspread.places] at hplace
    rwa [List.flatMap_append, List.flatMap_singleton]
  have hnames : ((built ++ [e]).map fun e => e.pose.name).Nodup := by
    rw [List.map_append]
    apply h.names.append (List.nodup_singleton _)
    intro name hold hnew
    obtain ⟨d, hd, rfl⟩ := List.mem_map.mp hold
    exact hname d hd (List.mem_singleton.mp hnew)
  have hnodup := nodup_laidDrivers prefs.blendMode hplaced.distinct hnames
  rw [laidDrivers_concat, List.map_append] at hnodup
  obtain ⟨-, hnew, hdisjoint⟩ := List.nodup_append.mp hnodup
  refine ⟨armature_install prefs e.inputs e.pose a₁ o₁, ?_, hplaced, ?_, hnames, ?_⟩
  · rw [hspread.bones, h.bones, Table.map_map]
    simp [laidOn]
  · intro d hd q hq b hb hmem
    rcases List.mem_append.mp hd with hd | hd
    · exact h.free d hd q hq b hb hmem
    · obtain rfl := List.mem_singleton.mp hd
      refine hspread.free q hq _ (by rw [h.bones, Table.get?_map, hb, Option.map_some]) ?_
      rw [Bone.constraintNames_extend]
      exact List.mem_append_left _ hmem
  · -- the drivers laid out before are on other paths, so they stay
    have hstay : ((laidDrivers prefs.blendMode built).filter fun d =>
        !((e.drivers prefs.blendMode).map Driver.dataPath).contains d.dataPath) =
          laidDrivers prefs.blendMode built := by
      rw [List.filter_eq_self]
      intro d hd
      have hout : d.dataPath ∉ (e.drivers prefs.blendMode).map Driver.dataPath := fun hmem =>
        hdisjoint _ (List.mem_map_of_mem hd) _ hmem rfl
      simpa using hout
    rw [drivers_install hspread.places.symm hnew, h.drivers, List.filter_append, hstay,
      List.filter_filter, laidDrivers_concat, List.append_assoc]
    congr 1
    apply List.filter_congr
    intro d _
    rw [List.map_append, List.contains_append, Bool.not_or, Bool.and_comm]

theorem Laid.exists_built {report : Report} (h : Laid mode o a built o₁ a₁)
    (ho : s.object rig = .ok o₁) (hc : Network.compile prefs rig l p s = .ok (report, s')) :
    ∃ e : Built, e.pose = p ∧ l.inputs e.pose = .ok e.inputs ∧
      Spread e.pose (prefs.constraintName e.pose.name) 0 e.pose.bones a₁ e.placed ∧
      s' = s.setObject rig (Network.install prefs e.inputs e.pose a₁ o₁).2 := by
  obtain ⟨inputs, o₂, a₂, hinputs, ho₂, ha₂, -, rfl⟩ := compile_eq_ok.mp hc
  obtain rfl := Except.ok.inj (ho.symm.trans ho₂)
  obtain rfl := Option.some.inj (h.armature.symm.trans ha₂)
  obtain ⟨placed, hspread⟩ := exists_spread p (prefs.constraintName p.name) 0 p.bones a₁
  exact ⟨⟨p, inputs, placed⟩, rfl, hinputs, hspread, rfl⟩

theorem Laid.compile {report : Report} (h : Laid prefs.blendMode o a built o₁ a₁)
    (ho : s.object rig = .ok o₁) (hc : Network.compile prefs rig l p s = .ok (report, s'))
    (hname : ∀ d ∈ built, d.pose.name ≠ p.name) :
    ∃ e o₂ a₂, s' = s.setObject rig o₂ ∧ e.pose = p ∧
      e.installed = Installed.onto prefs p e.inputs a₁ ∧ e.Faithful prefs l a ∧
      Laid prefs.blendMode o a (built ++ [e]) o₂ a₂ := by
  obtain ⟨e, rfl, hinputs, hspread, rfl⟩ := h.exists_built ho hc
  refine ⟨e, _, _, rfl, rfl, ?_, h.faithful hinputs hspread, h.install hspread hname⟩
  rw [Installed.onto, hspread.places]
  rfl

/-- What compiling a pose with a new name onto a rig that is laid out keeps, for the poses
in `P`. -/
def Kept (prefs : Preferences) (o : Object) (a : Armature) (P : Pose → Prop)
    (Inv : List Built → Object → Prop) : Prop :=
  ∀ built o₁ a₁ e, Laid prefs.blendMode o a built o₁ a₁ → Inv built o₁ → P e.pose →
    (∀ d ∈ built, d.pose.name ≠ e.pose.name) →
    Spread e.pose (prefs.constraintName e.pose.name) 0 e.pose.bones a₁ e.placed →
    Inv (built ++ [e]) (install prefs e.inputs e.pose a₁ o₁).2

variable {P : Pose → Prop} {Inv : List Built → Object → Prop}

/-- Going through the rounds of a build lays out the poses that are built, and keeps what is
kept each time. -/
theorem Kept.rounds {rounds : List Round} (hkept : Kept prefs o a P Inv)
    (h : Laid prefs.blendMode o a built o₁ a₁) (hinv : Inv built o₁)
    (ho : s.object rig = .ok o₁) (hlinked : Linked s rounds s')
    (hgated : ∀ r ∈ rounds, r.Gated prefs rig l) (hposes : ∀ r ∈ rounds, P r.pose)
    (hnames : ((built.map fun e => e.pose.name) ++ rounds.map fun r => r.pose.name).Nodup) :
    ∃ more o' a', s' = s.setObject rig o' ∧ Laid prefs.blendMode o a (built ++ more) o' a' ∧
      Inv (built ++ more) o' ∧ more.map Built.pose = (rounds.filter Round.built).map Round.pose ∧
      ∀ e ∈ more, e.Faithful prefs l a := by
  induction rounds generalizing s o₁ a₁ built with
  | nil =>
    obtain rfl := hlinked
    refine ⟨[], o₁, a₁, (Scene.setObject_self ho).symm, ?_, ?_, rfl,
      fun e he => absurd he List.not_mem_nil⟩
    · rwa [List.append_nil]
    · rwa [List.append_nil]
  | cons r rest ih =>
    obtain ⟨rfl, hlinked⟩ := hlinked
    have hr := hgated r List.mem_cons_self
    have hrest : ∀ r ∈ rest, r.Gated prefs rig l := fun q hq => hgated q (List.mem_cons_of_mem r hq)
    have hrestPoses : ∀ r ∈ rest, P r.pose := fun q hq => hposes q (List.mem_cons_of_mem r hq)
    cases hbuilt : r.built with
    | false =>
      rw [hr.held_back hbuilt] at hlinked
      have hnames' := hnames.sublist ((List.sublist_cons_self r.pose.name _).append_left _)
      rw [List.filter_cons_of_neg (by simp [hbuilt])]
      exact ih h hinv ho hlinked hrest hrestPoses hnames'
    | true =>
      have hname : ∀ e ∈ built, e.pose.name ≠ r.pose.name := fun e he heq =>
        List.disjoint_of_nodup_append hnames (List.mem_map_of_mem he) (heq ▸ List.mem_cons_self)
      obtain ⟨e, hpose, hinputs, hspread, hafter⟩ := h.exists_built ho (hr.compiled hbuilt)
      rw [← hpose] at hname
      rw [hafter] at hlinked
      have hinv₂ := hkept built o₁ a₁ e h hinv (hpose ▸ hposes r List.mem_cons_self) hname hspread
      obtain ⟨more, o', a', rfl, h', hinv', hmore, hfaithful⟩ := ih (h.install hspread hname) hinv₂
        (Scene.object_setObject _ _ _) hlinked hrest hrestPoses (by simpa [hpose] using hnames)
      refine ⟨e :: more, o', a', Scene.setObject_setObject _ _ _ _, ?_, ?_, ?_, ?_⟩
      · simpa using h'
      · simpa using hinv'
      · rw [List.filter_cons_of_pos hbuilt, List.map_cons, List.map_cons, hmore, hpose]
      · intro d hd
        rcases List.mem_cons.mp hd with rfl | hd
        · exact h.faithful hinputs hspread
        · exact hfaithful d hd

theorem kept_true (prefs : Preferences) (o : Object) (a : Armature) :
    Kept prefs o a (fun _ => True) fun _ _ => True := fun _ _ _ _ _ _ _ _ _ => trivial

theorem Laid.rounds {rounds : List Round} (h : Laid prefs.blendMode o a built o₁ a₁)
    (ho : s.object rig = .ok o₁) (hlinked : Linked s rounds s')
    (hgated : ∀ r ∈ rounds, r.Gated prefs rig l)
    (hnames : ((built.map fun e => e.pose.name) ++ rounds.map fun r => r.pose.name).Nodup) :
    ∃ more o' a', s' = s.setObject rig o' ∧ Laid prefs.blendMode o a (built ++ more) o' a' ∧
      more.map Built.pose = (rounds.filter Round.built).map Round.pose ∧
      ∀ e ∈ more, e.Faithful prefs l a := by
  obtain ⟨more, o', a', hafter, h', -, hmore, hfaithful⟩ :=
    (kept_true prefs o a).rounds h trivial ho hlinked hgated (fun _ _ => trivial) hnames
  exact ⟨more, o', a', hafter, h', hmore, hfaithful⟩

theorem names_laidOn (built : List Built) (bone : String) :
    (laidOn built bone).map (·.name) =
      ((built.flatMap fun e => e.installed.placed).filter fun q => q.1 == bone).map Prod.snd := by
  induction built with
  | nil => rfl
  | cons e r ih =>
    rw [laidOn, List.flatMap_cons, List.flatMap_cons, List.map_append, List.filter_append,
      List.map_append]
    congr 1
    simp [constraintsOn, Built.installed, List.filter_map, Function.comp_def]

theorem mem_laidOn {bone : String} {c : Constraint} :
    c ∈ laidOn built bone ↔ ∃ e ∈ built, ∃ q ∈ e.placed, q.1.bone = bone ∧
      c = { name := q.2, enabled := true, action := e.pose.action,
            frameStart := e.pose.startFrame, frameEnd := e.pose.endFrame, mix := e.pose.mix,
            influence := q.1.influence, useEvalTime := true, evalTime := 0 } := by
  simp only [laidOn, List.mem_flatMap, mem_constraintsOn]

theorem Laid.nodup_laidOn (h : Laid mode o a built o₁ a₁) (bone : String) :
    ((laidOn built bone).map (·.name)).Nodup := by
  rw [names_laidOn]
  apply (h.placed.distinct.filter _).map_on
  intro q hq r hr hname
  have hqbone : q.1 = bone := by simpa using (List.mem_filter.mp hq).2
  have hrbone : r.1 = bone := by simpa using (List.mem_filter.mp hr).2
  exact Prod.ext (hqbone.trans hrbone.symm) hname

theorem Laid.free_laidOn (h : Laid mode o a built o₁ a₁) {bone : String} {b : Bone}
    (hb : a.bones.get? bone = some b) {c : Constraint} (hc : c ∈ laidOn built bone) :
    c.name ∉ b.constraintNames := by
  obtain ⟨e, he, q, hq, rfl, rfl⟩ := mem_laidOn.mp hc
  exact h.free e he q hq b hb

theorem filter_dataPath {ds : List Driver} (hnodup : (ds.map Driver.dataPath).Nodup) {d : Driver}
    (hd : d ∈ ds) : (ds.filter fun e => e.dataPath == d.dataPath) = [d] := by
  induction ds with
  | nil => cases hd
  | cons e r ih =>
    obtain ⟨hfresh, hr⟩ := List.nodup_cons.mp hnodup
    rcases List.mem_cons.mp hd with rfl | hd
    · rw [List.filter_cons_of_pos (by simp), List.filter_eq_nil_iff.mpr]
      intro e he
      have hne : e.dataPath ≠ d.dataPath := fun heq => hfresh (List.mem_map.mpr ⟨e, he, heq⟩)
      simpa using hne
    · have hne : e.dataPath ≠ d.dataPath := fun heq => hfresh (List.mem_map.mpr ⟨d, hd, heq.symm⟩)
      rw [List.filter_cons_of_neg (by simpa using hne)]
      exact ih hr hd

theorem Built.exists_driver {e : Built} (mode : BlendMode) (hne : e.inputs ≠ []) {path : Path}
    (hpath : path ∈ e.paths) : ∃ d ∈ e.drivers mode, d.dataPath = path := by
  have hsome : ∃ blend, expression? mode e.inputs = some blend := by
    rw [expression?, if_neg (by simpa using hne)]
    exact ⟨_, rfl⟩
  obtain ⟨blend, hblend⟩ := hsome
  refine ⟨⟨path, blend, (named 0 e.inputs).map fun v => ⟨v.1, v.2.variableSource⟩⟩, ?_, rfl⟩
  rw [Built.drivers, hblend]
  exact List.mem_map_of_mem hpath

theorem Built.mem_paths {e : Built} {mode : BlendMode} {d : Driver} (hd : d ∈ e.drivers mode) :
    d.dataPath ∈ e.paths := by
  unfold Built.drivers at hd
  cases hx : expression? mode e.inputs with
  | none => simp [hx] at hd
  | some blend =>
    rw [hx] at hd
    obtain ⟨path, hpath, rfl⟩ := List.mem_map.mp hd
    exact hpath

theorem Built.Faithful.compiled {e : Built} (h : e.Faithful prefs l a)
    (hdot : '.' ∉ prefs.constraintPrefix.toList) {path : Path} (hpath : path ∈ e.paths) :
    prefs.isCompiledPath path = true := by
  rcases List.mem_append.mp hpath with hpath | hpath
  · obtain ⟨q, hq, rfl⟩ := List.mem_map.mp hpath
    obtain ⟨taken, hq⟩ := h.named q hq
    rw [Preferences.isCompiledPath_evalTime, hq]
    exact Preferences.isCompiled_fresh hdot taken e.pose.name
  · rw [List.mem_singleton.mp hpath]
    exact prefs.isCompiledPath_influence e.pose.name

/-- The rig object `o'` with the armature `a'` is the purged `o`, which had the armature `a`, with
the built poses laid out on it. -/
structure LaidOut (prefs : Preferences) (l : Library) (o : Object) (a : Armature)
    (built : List Built) (o' : Object) (a' : Armature) : Prop where
  armature : o'.armature = some a'
  inputs : ∀ e ∈ built, l.inputs e.pose = .ok e.inputs
  entries :
    ∀ e ∈ built, e.placed.map Prod.fst = e.pose.bones.filter fun b => a.bones.contains b.bone
  named : ∀ e ∈ built, ∀ q ∈ e.placed, q.2 = prefs.constraintName e.pose.name ∨
    ∃ n, q.2 = Naming.candidate (prefs.constraintName e.pose.name) (n + 1)
  constraints : a'.bones = a.bones.map fun n b =>
    { b with
      constraints := (b.constraints.filter fun c => !prefs.isCompiled c.name) ++ laidOn built n }
  playing : ∀ n, ∀ c ∈ laidOn built n, ∃ e ∈ built, ∃ q ∈ e.placed, q.1.bone = n ∧
    c = { name := q.2, enabled := true, action := e.pose.action,
          frameStart := e.pose.startFrame, frameEnd := e.pose.endFrame, mix := e.pose.mix,
          influence := q.1.influence, useEvalTime := true, evalTime := 0 }
  distinct : ∀ n, ((laidOn built n).map (·.name)).Nodup
  fresh : ∀ n b, a.bones.get? n = some b → ∀ c ∈ laidOn built n, ∀ d ∈ b.constraints,
    prefs.isCompiled d.name = false → c.name ≠ d.name
  drivers : o'.animationOrNew.drivers =
    ((o.purge prefs).animationOrNew.drivers.filter fun d =>
      !((laidDrivers prefs.blendMode built).map Driver.dataPath).contains d.dataPath) ++
      laidDrivers prefs.blendMode built
  kept : '.' ∉ prefs.constraintPrefix.toList → ∀ d ∈ (o.purge prefs).animationOrNew.drivers,
    d.dataPath ∉ (laidDrivers prefs.blendMode built).map Driver.dataPath
  driven : ∀ e ∈ built, e.inputs ≠ [] → ∀ q ∈ e.placed, ∃ d ∈ e.drivers prefs.blendMode,
    (o'.animationOrNew.drivers.filter fun d => d.dataPath == Path.evalTime q.1.bone q.2) = [d]

theorem Laid.laidOut {o' : Object} {a' : Armature}
    (h : Laid prefs.blendMode (o.purge prefs)
      (a.mapBones fun _ b => b.removeConstraints prefs.isCompiled) built o' a')
    (hfaithful : ∀ e ∈ built, e.Faithful prefs l
      (a.mapBones fun _ b => b.removeConstraints prefs.isCompiled)) :
    LaidOut prefs l o a built o' a' := by
  constructor
  case armature => exact h.armature
  case inputs => exact fun e he => (hfaithful e he).inputs
  case entries =>
    intro e he
    rw [(hfaithful e he).entries]
    apply List.filter_congr
    intro b _
    simp [Armature.mapBones, Table.contains, Table.get?_map]
  case named =>
    intro e he q hq
    obtain ⟨taken, hq⟩ := (hfaithful e he).named q hq
    rw [hq]
    exact Naming.fresh_cases taken _
  case constraints =>
    rw [h.bones, Armature.mapBones, Table.map_map]
    rfl
  case playing => exact fun n c hc => mem_laidOn.mp hc
  case distinct => exact h.nodup_laidOn
  case fresh =>
    intro n b hb c hc d hd hkept heq
    have hb' : (a.mapBones fun _ b => b.removeConstraints prefs.isCompiled).bones.get? n =
        some (b.removeConstraints prefs.isCompiled) := by
      simp [Armature.mapBones, Table.get?_map, hb]
    apply h.free_laidOn hb' hc
    rw [heq]
    exact List.mem_map_of_mem (List.mem_filter.mpr ⟨hd, by simp [hkept]⟩)
  case drivers => exact h.drivers
  case kept =>
    intro hdot d hd hmem
    obtain ⟨d', hd', hpath⟩ := List.mem_map.mp hmem
    obtain ⟨e, he, hde⟩ := List.mem_flatMap.mp hd'
    have hcompiled := (hfaithful e he).compiled hdot (Built.mem_paths hde)
    rw [drivers_purge] at hd
    have hnot := (List.mem_filter.mp hd).2
    rw [← hpath, hcompiled] at hnot
    cases hnot
  case driven =>
    intro e he hne q hq
    have hpath : Path.evalTime q.1.bone q.2 ∈ e.paths :=
      List.mem_append_left _ (List.mem_map.mpr ⟨q, hq, rfl⟩)
    obtain ⟨d, hd, hdpath⟩ := Built.exists_driver prefs.blendMode hne hpath
    have hlaid : d ∈ laidDrivers prefs.blendMode built := List.mem_flatMap.mpr ⟨e, he, hd⟩
    refine ⟨d, hd, ?_⟩
    rw [h.drivers, List.filter_append, ← hdpath,
      filter_dataPath (nodup_laidDrivers prefs.blendMode h.placed.distinct h.names) hlaid]
    have hnone : ∀ k ∈ ((o.purge prefs).animationOrNew.drivers.filter fun d =>
        !((laidDrivers prefs.blendMode built).map Driver.dataPath).contains d.dataPath),
          ¬(k.dataPath == d.dataPath) = true := by
      intro k hk heq
      have hout := (List.mem_filter.mp hk).2
      rw [eq_of_beq heq] at hout
      have hin : d.dataPath ∈ (laidDrivers prefs.blendMode built).map Driver.dataPath :=
        List.mem_map_of_mem hlaid
      simp [hin] at hout
    rw [List.filter_eq_nil_iff.mpr hnone, List.nil_append]

theorem Kept.rebuild (l : Library) (ho : s.object rig = .ok o) (ha : o.armature = some a)
    (hnames : l.names.Nodup)
    (hkept :
      Kept prefs (o.purge prefs) (a.mapBones fun _ b => b.removeConstraints prefs.isCompiled) P Inv)
    (hstart : Inv [] (o.purge prefs)) (hposes : ∀ p ∈ l.poses, P p) :
    ∃ counts rounds report built o' a',
      purge prefs rig s = .ok (counts, s.setObject rig (o.purge prefs)) ∧
      rounds.map Round.pose = l.poses ∧
      Linked (s.setObject rig (o.purge prefs)) rounds (s.setObject rig o') ∧
      (∀ r ∈ rounds, r.Gated prefs rig l) ∧
      rebuild prefs rig l s = (.ok report, s.setObject rig o') ∧
      built.map Built.pose = (rounds.filter Round.built).map Round.pose ∧
      Laid prefs.blendMode (o.purge prefs)
        (a.mapBones fun _ b => b.removeConstraints prefs.isCompiled) built o' a' ∧
      (∀ e ∈ built, e.Faithful prefs l (a.mapBones fun _ b =>
        b.removeConstraints prefs.isCompiled)) ∧
      Inv built o' := by
  obtain ⟨counts, purged, rounds, report, s', hpurge, hrounds, hlinked, hgated, hb, -⟩ :=
    rebuild_rounds prefs l (Scene.armature_of_object ho ha)
  obtain ⟨-, rfl⟩ := Prod.mk.inj (Except.ok.inj ((purge_eq ho).symm.trans hpurge))
  have ha₀ : (o.purge prefs).armature =
      some (a.mapBones fun _ b => b.removeConstraints prefs.isCompiled) := by
    simp only [Object.purge, ha, Option.map_some]
  have hroundNames : (rounds.map fun r => r.pose.name).Nodup := by
    rw [Library.names, ← hrounds, List.map_map] at hnames
    exact hnames
  have hroundPoses : ∀ r ∈ rounds, P r.pose :=
    fun r hr => hposes _ (hrounds ▸ List.mem_map_of_mem hr)
  obtain ⟨built, o', a', rfl, h, hinv, hbuilt, hfaithful⟩ := hkept.rounds (Laid.start ha₀) hstart
    (Scene.object_setObject s rig _) hlinked hgated hroundPoses hroundNames
  rw [Scene.setObject_setObject] at hlinked hb
  exact ⟨counts, rounds, report, built, o', a', hpurge, hrounds, hlinked, hgated, hb,
    hbuilt, h, hfaithful, hinv⟩

theorem laid_rebuild (prefs : Preferences) (l : Library) (ho : s.object rig = .ok o)
    (ha : o.armature = some a) (hnames : l.names.Nodup) :
    ∃ counts rounds report built o' a',
      purge prefs rig s = .ok (counts, s.setObject rig (o.purge prefs)) ∧
      rounds.map Round.pose = l.poses ∧
      Linked (s.setObject rig (o.purge prefs)) rounds (s.setObject rig o') ∧
      (∀ r ∈ rounds, r.Gated prefs rig l) ∧
      rebuild prefs rig l s = (.ok report, s.setObject rig o') ∧
      built.map Built.pose = (rounds.filter Round.built).map Round.pose ∧
      Laid prefs.blendMode (o.purge prefs)
        (a.mapBones fun _ b => b.removeConstraints prefs.isCompiled) built o' a' ∧
      ∀ e ∈ built, e.Faithful prefs l (a.mapBones fun _ b =>
        b.removeConstraints prefs.isCompiled) := by
  obtain ⟨counts, rounds, report, built, o', a', hpurge, hrounds, hlinked, hgated, hb,
    hbuilt, h, hfaithful, -⟩ :=
      (kept_true prefs _ _).rebuild l ho ha hnames trivial fun _ _ => trivial
  exact ⟨counts, rounds, report, built, o', a', hpurge, hrounds, hlinked, hgated, hb,
    hbuilt, h, hfaithful⟩

/-- After a build with distinct pose names each bone has the constraints that a purge keeps, then
one for each entry of a built pose that names it, by pose and by entry. Their names are new and
distinct. The drivers are those a purge keeps, less the ones bound to a path that a built pose takes
over, then those of the built poses; where the prefix has no point none is taken over. Each
constraint of a pose with inputs has one driver on its time. -/
theorem compileAll_lays_out (prefs : Preferences) (rig : String) (l : Library) (s : Scene)
    (o : Object) (a : Armature) (ho : s.object rig = .ok o) (ha : o.armature = some a)
    (hnames : l.names.Nodup) :
    ∃ counts purged rounds report built o' a',
      purge prefs rig s = .ok (counts, purged) ∧ rounds.map Round.pose = l.poses ∧
      Linked purged rounds (s.setObject rig o') ∧ (∀ r ∈ rounds, r.Gated prefs rig l) ∧
      compileAll prefs rig l .idle s = (.ok report, .idle, s.setObject rig o') ∧
      built.map Built.pose = (rounds.filter Round.built).map Round.pose ∧
      LaidOut prefs l o a built o' a' := by
  obtain ⟨counts, rounds, report, built, o', a', hpurge, hposes, hlinked, hgated, hb, hbuilt, h,
    hfaithful⟩ := laid_rebuild prefs l ho ha hnames
  refine ⟨counts, _, rounds, report, built, o', a', hpurge, hposes, hlinked, hgated, ?_, hbuilt,
    h.laidOut hfaithful⟩
  rw [compileAll_idle, hb]

def yawnPose : Pose :=
  { Pose.ofChannel "Yawn" "Rig" "Jaw" ⟨.location, .y⟩ with
    action := some "Yawn"
    startFrame := 5
    endFrame := 25
    mix := .afterFull
    bones := [⟨"Jaw", 1⟩, ⟨"Jaw", 0⟩] }

theorem compileAll_lays_out_jaw :
    jawScene.object "Rig" = .ok jawRig ∧ ({ poses := [yawnPose] } : Library).names.Nodup ∧
    ∃ report built o' a a' jaw,
      compileAll {} "Rig" { poses := [yawnPose] } .idle jawScene =
        (.ok report, .idle, jawScene.setObject "Rig" o') ∧
      jawRig.armature = some a ∧ LaidOut {} { poses := [yawnPose] } jawRig a built o' a' ∧
      a'.bones.get? "Jaw" = some jaw ∧
      jaw.constraints =
        [{ name := "Limit" },
         { name := "AP-Yawn", enabled := true, action := some "Yawn",
           frameStart := 5, frameEnd := 25, mix := .afterFull,
           influence := 1, useEvalTime := true, evalTime := 0 },
         { name := "AP-Yawn.001", enabled := true, action := some "Yawn",
           frameStart := 5, frameEnd := 25, mix := .afterFull,
           influence := 0, useEvalTime := true, evalTime := 0 }] := by
  have hnames : ({ poses := [yawnPose] } : Library).names.Nodup := by decide
  obtain ⟨-, -, -, report, built, o', a', -, -, -, -, hrun, -, h⟩ :=
    compileAll_lays_out {} "Rig" { poses := [yawnPose] } jawScene jawRig _ rfl rfl hnames
  have harmature : (compileAll {} "Rig" { poses := [yawnPose] } .idle jawScene).2.2.armature "Rig" =
      .ok a' := by
    rw [hrun]
    exact Scene.armature_of_object (Scene.object_setObject jawScene "Rig" o') h.armature
  obtain rfl := Except.ok.inj harmature
  exact ⟨rfl, hnames, report, built, o', _, _, _, hrun, rfl, h, rfl, rfl⟩

/-- A prefix whose point is taken for that of a number once a pose called `23` is added to it. -/
def pointedPrefs : Preferences := { constraintPrefix := "A.1" }

def pointedPose : Pose := { jawPose with name := "23" }

def pointedRig : Object where
  kind := .armature
  armature := some { bones := .ofList [("Jaw", {})] }
  animation := some { drivers := [⟨.evalTime "Jaw" "A.001", "0.5", []⟩] }

def pointedScene : Scene := { objects := .ofList [("Rig", pointedRig)] }

/-- A purge keeps the rig's own driver, and the build replaces it all the same. -/
theorem compileAll_takes_over_pointed :
    pointedScene.object "Rig" = .ok pointedRig ∧
    ({ poses := [pointedPose] } : Library).names.Nodup ∧
    (pointedRig.purge pointedPrefs).animationOrNew.drivers =
      [⟨.evalTime "Jaw" "A.001", "0.5", []⟩] ∧
    ∃ report s' o',
      compileAll pointedPrefs "Rig" { poses := [pointedPose] } .idle pointedScene =
        (.ok report, .idle, s') ∧
      s'.object "Rig" = .ok o' ∧
      ¬(pointedRig.purge pointedPrefs).animationOrNew.drivers <+: o'.animationOrNew.drivers := by
  refine ⟨rfl, by decide, by decide, _, _, _, rfl, rfl, ?_⟩
  decide

end PoseRig.Network
