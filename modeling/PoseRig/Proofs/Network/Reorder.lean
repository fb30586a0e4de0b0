import PoseRig.Proofs.Network.Agreement
import PoseRig.Proofs.Network.Layout
import PoseRig.Proofs.Scene.ActionRefs

/-!
# The order of the poses

Poses with distinct names take different constraints, drivers and custom properties, each under
the name that it asks for, and none looks at what the ones before it left. What a pose finds by
name in a library does not depend on where it stands there. So two orders of the same poses
build the same ones, and the rigs differ only in the order in which constraints are stacked and
drivers follow each other.
-/

set_option autoImplicit false

namespace PoseRig

structure Bone.Restacked (b b' : Bone) : Prop where
  constraints : b.constraints.Perm b'.constraints
  rest : b' = { b with constraints := b'.constraints }

structure Armature.Restacked (a a' : Armature) : Prop where
  names : a'.bones.names = a.bones.names
  bones : ∀ n b b', a.bones.get? n = some b → a'.bones.get? n = some b' → b.Restacked b'
  activeBone : a'.activeBone = a.activeBone

structure Animation.Restacked (m m' : Animation) : Prop where
  action : m'.action = m.action
  drivers : m.drivers.Perm m'.drivers

/-- The same object up to the order of the constraints on each bone, of the drivers and of the
custom properties, each of which has one name. -/
structure Object.Restacked (o o' : Object) : Prop where
  kind : o'.kind = o.kind
  transform : o'.transform = o.transform
  armature : Option.Rel Armature.Restacked o.armature o'.armature
  animation : Option.Rel Animation.Restacked o.animation o'.animation
  properties : o.properties.entries.Perm o'.properties.entries

theorem Animation.rel_restacked {m m' : Option Animation} (hsome : m'.isSome = m.isSome)
    (haction : m'.bind (·.action) = m.bind (·.action))
    (hdrivers : (m.getD {}).drivers.Perm (m'.getD {}).drivers) :
    Option.Rel Animation.Restacked m m' := by
  cases m with
  | none =>
    obtain rfl : m' = none := by simpa using hsome
    exact .none
  | some m =>
    obtain ⟨m', rfl⟩ := Option.isSome_iff_exists.mp hsome
    exact .some ⟨haction, hdrivers⟩

namespace Library

variable {l l' : Library}

theorem find?_perm (hperm : l.poses.Perm l'.poses) (hnames : l.names.Nodup) (name : String) :
    l'.find? name = l.find? name := by
  have hnames' : l'.names.Nodup := (hperm.map _).nodup_iff.mp hnames
  apply Option.ext
  intro p
  constructor
  · intro h
    obtain ⟨hp, rfl⟩ := mem_of_find? h
    exact find?_of_mem hnames (hperm.mem_iff.mpr hp)
  · intro h
    obtain ⟨hp, rfl⟩ := mem_of_find? h
    exact find?_of_mem hnames' (hperm.mem_iff.mp hp)

theorem inputs_perm (hperm : l.poses.Perm l'.poses) (hnames : l.names.Nodup) (p : Pose) :
    l'.inputs p = l.inputs p := by
  have hpart : ∀ part, l'.part? part = l.part? part := by
    intro part
    rw [part?, part?, find?_perm hperm hnames]
  have hagree : AgreeBelow l l' (some p) := fun _ _ q _ _ => ⟨hpart q.partA, hpart q.partB⟩
  exact hagree.inputs

end Library

namespace Network

variable {prefs : Preferences} {rig : String} {l l' : Library} {p : Pose} {s s' : Scene}
  {o o₁ o₂ : Object} {a a₁ a₂ : Armature} {built built' : List Built}

theorem placed_of_free {name : String} {time : Scalar} {es : List BoneEntry}
    (hbones : (es.map (·.bone)).Nodup)
    (hfree : ∀ e ∈ es, ∀ b, a.bones.get? e.bone = some b → name ∉ b.constraintNames) :
    ∀ q ∈ (place p name time es a).placed, q.2 = name := by
  induction es generalizing a with
  | nil => simp [place]
  | cons e r ih =>
    obtain ⟨he, hr⟩ := List.nodup_cons.mp hbones
    cases hb : a.bones.get? e.bone with
    | none =>
      simp only [place, hb]
      exact ih hr fun d hd => hfree d (List.mem_cons_of_mem e hd)
    | some b =>
      have hname : b.freshName name = name :=
        Naming.fresh_of_not_mem (hfree e List.mem_cons_self b hb)
      simp only [place, hb, hname, List.forall_mem_cons, true_and]
      apply ih hr
      intro d hd b' hb'
      -- the bones of the other entries are as they were
      have hne : d.bone ≠ e.bone := fun heq => he (List.mem_map.mpr ⟨d, hd, heq⟩)
      apply hfree d (List.mem_cons_of_mem e hd)
      simpa [Armature.updateBone, Table.get?_update, hne] using hb'

theorem constraintName_injective (prefs : Preferences) :
    Function.Injective prefs.constraintName := by
  intro p q h
  have hchars := congrArg String.toList h
  simp only [Preferences.constraintName, String.toList_append] at hchars
  exact String.toList_injective (List.append_cancel_left hchars)

theorem isSome_foldl_addDriver (ds : List Driver) (o : Object) :
    (ds.foldl Object.addDriver o).animation.isSome ↔ o.animation.isSome ∨ ds ≠ [] := by
  induction ds generalizing o with
  | nil => simp
  | cons d r ih =>
    rw [List.foldl_cons, ih]
    simp [Object.addDriver]

/-- No constraint of the rig and none of its custom properties has a compiled name. -/
structure Purged (prefs : Preferences) (o : Object) (a : Armature) : Prop where
  constraints : ∀ n b, a.bones.get? n = some b → ∀ name ∈ b.constraintNames,
    prefs.isCompiled name = false
  properties : ∀ name ∈ o.properties.names, prefs.isCompiled name = false

theorem purged_purge (prefs : Preferences) (o : Object) (a : Armature) :
    Purged prefs (o.purge prefs) (a.mapBones fun _ b => b.removeConstraints prefs.isCompiled) := by
  constructor
  · intro n b hb name hname
    rw [Armature.mapBones, Table.get?_map] at hb
    obtain ⟨b, -, rfl⟩ := Option.map_eq_some_iff.mp hb
    obtain ⟨c, hc, rfl⟩ := List.mem_map.mp hname
    simpa using (List.mem_filter.mp hc).2
  · intro name hname
    obtain ⟨e, he, rfl⟩ := List.mem_map.mp hname
    simpa using (List.mem_filter.mp he).2

/-- Built poses have put their constraints under the names they asked for, and besides constraints
and drivers have added one custom property each. -/
structure Stacked (prefs : Preferences) (o : Object) (a : Armature) (built : List Built)
    (o₁ : Object) : Prop where
  named : ∀ e ∈ built, ∀ q ∈ e.placed, q.2 = prefs.constraintName e.pose.name
  kind : o₁.kind = o.kind
  transform : o₁.transform = o.transform
  activeBone : o₁.armature.map Armature.activeBone = some a.activeBone
  activeAction : o₁.activeAction = o.activeAction
  animation : o₁.animation.isSome ↔ o.animation.isSome ∨ laidDrivers prefs.blendMode built ≠ []
  properties : o₁.properties.entries = o.properties.entries ++
    built.map fun e => (prefs.constraintName e.pose.name, .float 0)

theorem Stacked.start (ha : o.armature = some a) : Stacked prefs o a [] o := by
  constructor <;> simp [ha, laidDrivers]

theorem Stacked.named_spread {e : Built} (h : Stacked prefs o a built o₁)
    (hpurged : Purged prefs o a) (hlaid : Laid prefs.blendMode o a built o₁ a₁)
    (hbones : e.pose.boneNames.Nodup) (hname : ∀ d ∈ built, d.pose.name ≠ e.pose.name)
    (hspread : Spread e.pose (prefs.constraintName e.pose.name) 0 e.pose.bones a₁ e.placed) :
    ∀ q ∈ e.placed, q.2 = prefs.constraintName e.pose.name := by
  have hfree : ∀ d ∈ e.pose.bones, ∀ b, a₁.bones.get? d.bone = some b →
      prefs.constraintName e.pose.name ∉ b.constraintNames := by
    intro d _ b hb hmem
    rw [hlaid.bones, Table.get?_map] at hb
    obtain ⟨b₀, hb₀, rfl⟩ := Option.map_eq_some_iff.mp hb
    rw [Bone.constraintNames_extend] at hmem
    rcases List.mem_append.mp hmem with hmem | hmem
    · have hnot := hpurged.constraints d.bone b₀ hb₀ _ hmem
      simp [prefs.isCompiled_constraintName] at hnot
    · obtain ⟨c, hc, heq⟩ := List.mem_map.mp hmem
      obtain ⟨e', he', hc⟩ := List.mem_flatMap.mp hc
      obtain ⟨q, hq, rfl⟩ := List.mem_map.mp hc
      have hq₂ : q.2 = prefs.constraintName e.pose.name := heq
      rw [h.named e' he' q (List.mem_filter.mp hq).1] at hq₂
      exact hname e' he' (constraintName_injective prefs hq₂)
  intro q hq
  have hplaced : (q.1.bone, q.2) ∈
      (place e.pose (prefs.constraintName e.pose.name) 0 e.pose.bones a₁).placed := by
    rw [hspread.places]
    exact List.mem_map.mpr ⟨q, hq, rfl⟩
  exact placed_of_free hbones hfree _ hplaced

theorem stacked_kept (hpurged : Purged prefs o a) :
    Kept prefs o a (fun p => p.boneNames.Nodup) (Stacked prefs o a) := by
  intro built o₁ a₁ e hlaid h hbones hname hspread
  constructor
  case named =>
    intro d hd
    rcases List.mem_append.mp hd with hd | hd
    · exact h.named d hd
    · obtain rfl := List.mem_singleton.mp hd
      exact h.named_spread hpurged hlaid hbones hname hspread
  case kind => exact (kind_install prefs e.inputs e.pose a₁ o₁).trans h.kind
  case transform =>
    exact (view_foldl_bindBlend Object.transform (fun _ _ => rfl) _ _ _ _).trans h.transform
  case activeBone =>
    have hactive := h.activeBone
    rw [hlaid.armature] at hactive
    rw [armature_install, Option.map_some, activeBone_place]
    exact hactive
  case activeAction =>
    exact (view_foldl_bindBlend Object.activeAction Object.activeAction_addDriver _ _ _ _).trans
      h.activeAction
  case animation =>
    have hsome : (install prefs e.inputs e.pose a₁ o₁).2.animation.isSome ↔
        o₁.animation.isSome ∨ e.drivers prefs.blendMode ≠ [] := by
      simp only [install]
      rw [foldl_bindBlend, e.drivers_placed prefs.blendMode hspread.places.symm,
        isSome_foldl_addDriver]
      rfl
    rw [hsome, h.animation, laidDrivers_concat]
    simp only [ne_eq, List.append_eq_nil_iff, not_and_or, or_assoc]
  case properties =>
    have honto : e.Onto prefs o₁ a₁ (install prefs e.inputs e.pose a₁ o₁).2 := hspread.onto
    have hnew : prefs.constraintName e.pose.name ∉ Entries.names o₁.properties.entries := by
      rw [h.properties, Entries.names, List.map_append, List.map_map]
      intro hmem
      rcases List.mem_append.mp hmem with hmem | hmem
      · have hnot := hpurged.properties _ hmem
        simp [prefs.isCompiled_constraintName] at hnot
      · obtain ⟨d, hd, heq⟩ := List.mem_map.mp hmem
        exact hname d hd (constraintName_injective prefs heq)
    rw [honto.properties]
    show Entries.put _ _ o₁.properties.entries = _
    rw [Entries.put_of_not_mem _ _ hnew, h.properties, List.map_append, List.append_assoc]
    rfl

def Built.of (prefs : Preferences) (l : Library) (a : Armature) (p : Pose) : Built where
  pose := p
  inputs := (l.inputs p).toOption.getD []
  placed :=
    (p.bones.filter fun b => a.bones.contains b.bone).map fun b => (b, prefs.constraintName p.name)

theorem Built.Faithful.eq_of {e : Built} (h : e.Faithful prefs l a)
    (hnamed : ∀ q ∈ e.placed, q.2 = prefs.constraintName e.pose.name) :
    e = .of prefs l a e.pose := by
  have hplaced : e.placed =
      (e.placed.map Prod.fst).map fun b => (b, prefs.constraintName e.pose.name) := by
    rw [List.map_map]
    conv_lhs => rw [← List.map_id e.placed]
    apply List.map_congr_left
    intro q hq
    exact Prod.ext rfl (hnamed q hq)
  rw [h.entries] at hplaced
  obtain ⟨pose, inputs, placed⟩ := e
  have hinputs : l.inputs pose = .ok inputs := h.inputs
  have hplaced : placed = _ := hplaced
  rw [Built.of, hinputs, hplaced]
  rfl

theorem Stacked.eq_map (h : Stacked prefs o a built o₁)
    (hfaithful : ∀ e ∈ built, e.Faithful prefs l a) :
    built = (built.map Built.pose).map (.of prefs l a) := by
  rw [List.map_map]
  conv_lhs => rw [← List.map_id built]
  apply List.map_congr_left
  intro e he
  exact (hfaithful e he).eq_of (h.named e he)

theorem Stacked.restacked (h₁ : Stacked prefs o a built o₁) (h₂ : Stacked prefs o a built' o₂)
    (hl₁ : Laid prefs.blendMode o a built o₁ a₁) (hl₂ : Laid prefs.blendMode o a built' o₂ a₂)
    (hperm : built.Perm built') : o₁.Restacked o₂ := by
  have hdrivers : (laidDrivers prefs.blendMode built).Perm (laidDrivers prefs.blendMode built') :=
    hperm.flatMap_right _
  constructor
  case kind => rw [h₁.kind, h₂.kind]
  case transform => rw [h₁.transform, h₂.transform]
  case armature =>
    have hactive₁ := h₁.activeBone
    have hactive₂ := h₂.activeBone
    rw [hl₁.armature] at hactive₁ ⊢
    rw [hl₂.armature] at hactive₂ ⊢
    refine .some ⟨?_, ?_, ?_⟩
    · rw [hl₁.bones, hl₂.bones, Table.names_map, Table.names_map]
    · intro n b₁ b₂ hb₁ hb₂
      rw [hl₁.bones, Table.get?_map] at hb₁
      rw [hl₂.bones, Table.get?_map] at hb₂
      obtain ⟨b, hb, rfl⟩ := Option.map_eq_some_iff.mp hb₁
      rw [hb, Option.map_some] at hb₂
      obtain rfl := Option.some.inj hb₂
      exact ⟨(hperm.flatMap_right _).append_left _, rfl⟩
    · exact Option.some.inj (hactive₂.trans hactive₁.symm)
  case animation =>
    apply Animation.rel_restacked
    · rw [Bool.eq_iff_iff, h₁.animation, h₂.animation]
      simp only [ne_eq, ← List.length_eq_zero_iff, hdrivers.length_eq]
    · exact h₂.activeAction.trans h₁.activeAction.symm
    · show o₁.animationOrNew.drivers.Perm o₂.animationOrNew.drivers
      have hpaths :
          ∀ path, ((laidDrivers prefs.blendMode built').map Driver.dataPath).contains path =
            ((laidDrivers prefs.blendMode built).map Driver.dataPath).contains path := by
        intro path
        rw [Bool.eq_iff_iff, List.contains_iff_mem, List.contains_iff_mem]
        exact (hdrivers.map _).mem_iff.symm
      rw [hl₁.drivers, hl₂.drivers]
      simp only [hpaths]
      exact hdrivers.append_left _
  case properties =>
    rw [h₁.properties, h₂.properties]
    exact (hperm.map _).append_left _

/-- What the rig has become in the meantime matters to the validity of a pose only if it is read
for a property. -/
theorem invalid?_setObject (s : Scene) (o₁ o₂ : Object)
    (htarget : p.kind = .simple → p.targetKind = .sceneProperty → p.target ≠ some rig) :
    p.invalid? (s.setObject rig o₁) = p.invalid? (s.setObject rig o₂) := by
  unfold Pose.invalid?
  cases hk : p.kind with
  | combo => rfl
  | simple =>
    cases ht : p.usableTarget? with
    | none => rfl
    | some t =>
      by_cases hrig : t = rig
      · subst hrig
        have hbone : p.targetKind = .boneTransform := by
          cases htk : p.targetKind with
          | boneTransform => rfl
          | sceneProperty =>
            exact absurd (Option.filter_eq_some_iff.mp ht).1 (htarget hk htk)
        simp [Scene.setObject, Table.get?_insert, Pose.inputInvalid?, hbone]
      · simp [Scene.setObject, Table.get?_insert, hrig]

theorem before_of_linked {rounds : List Round} (hlinked : Linked (s.setObject rig o) rounds s')
    (hgated : ∀ r ∈ rounds, r.Gated prefs rig l) :
    ∀ r ∈ rounds, ∃ o', r.before = s.setObject rig o' := by
  induction rounds generalizing o with
  | nil => simp
  | cons r rest ih =>
    obtain ⟨hbefore, hlinked⟩ := hlinked
    have hrest : ∀ r ∈ rest, r.Gated prefs rig l := fun q hq => hgated q (List.mem_cons_of_mem r hq)
    have hr := hgated r List.mem_cons_self
    have hafter : ∃ o', r.after = s.setObject rig o' := by
      cases hbuilt : r.built with
      | false => exact ⟨o, (hr.held_back hbuilt).trans hbefore⟩
      | true =>
        obtain ⟨inputs, o₁, a, -, -, -, -, hafter⟩ := compile_eq_ok.mp (hr.compiled hbuilt)
        rw [hbefore, Scene.setObject_setObject] at hafter
        exact ⟨_, hafter⟩
    obtain ⟨o', hafter⟩ := hafter
    rw [hafter] at hlinked
    intro q hq
    rcases List.mem_cons.mp hq with rfl | hq
    · exact ⟨o, hbefore⟩
    · exact ih hlinked hrest q hq

def takes (l : Library) (s : Scene) (p : Pose) : Bool :=
  p.build && (p.invalid? s).isNone && (l.inputs p).isOk

theorem Round.Gated.built_eq {r : Round} (h : r.Gated prefs rig l) :
    r.built = takes l r.before r.pose := by
  have hcycle :
      (∀ chain, l.inputs r.pose ≠ .error (.comboCycle chain)) ↔ (l.inputs r.pose).isOk := by
    cases hi : l.inputs r.pose with
    | ok inputs => simp [Except.isOk, Except.toBool]
    | error e =>
      obtain ⟨chain, rfl⟩ := Library.inputs_error hi
      simp [Except.isOk, Except.toBool]
  rw [Bool.eq_iff_iff, h.built_iff, hcycle]
  simp [takes, and_assoc]

theorem built_rounds {rounds : List Round} (hposes : rounds.map Round.pose = l.poses)
    (hlinked : Linked (s.setObject rig o) rounds s') (hgated : ∀ r ∈ rounds, r.Gated prefs rig l)
    (htargets : ∀ p ∈ l.poses, p.kind = .simple → p.targetKind = .sceneProperty →
      p.target ≠ some rig) :
    (rounds.filter Round.built).map Round.pose = l.poses.filter (takes l (s.setObject rig o)) := by
  rw [← hposes, List.filter_map]
  congr 1
  apply List.filter_congr
  intro r hr
  obtain ⟨o', hbefore⟩ := before_of_linked hlinked hgated r hr
  have hmem : r.pose ∈ l.poses := hposes ▸ List.mem_map_of_mem hr
  rw [(hgated r hr).built_eq, hbefore, Function.comp_apply, takes, takes,
    invalid?_setObject s o' o (htargets _ hmem)]

/-- A build of a library without an edit under way: from the purged scene each pose has its
round. -/
structure Course (prefs : Preferences) (rig : String) (l : Library) (s : Scene)
    (rounds : List Round) (s' : Scene) : Prop where
  run : ∃ report, compileAll prefs rig l .idle s = (.ok report, .idle, s')
  poses : rounds.map Round.pose = l.poses
  linked : ∃ counts purged, purge prefs rig s = .ok (counts, purged) ∧ Linked purged rounds s'
  gated : ∀ r ∈ rounds, r.Gated prefs rig l

/-- A build lays out what it takes in the scene it starts from, each pose as it asks for. -/
theorem exists_course (prefs : Preferences) (ho : s.object rig = .ok o) (ha : o.armature = some a)
    (hnames : l.names.Nodup) (hbones : ∀ p ∈ l.poses, p.boneNames.Nodup)
    (htargets : ∀ p ∈ l.poses, p.kind = .simple → p.targetKind = .sceneProperty →
      p.target ≠ some rig) :
    ∃ rounds built o' a', Course prefs rig l s rounds (s.setObject rig o') ∧
      (rounds.filter Round.built).map Round.pose =
        l.poses.filter (takes l (s.setObject rig (o.purge prefs))) ∧
      built = (l.poses.filter (takes l (s.setObject rig (o.purge prefs)))).map
        (.of prefs l (a.mapBones fun _ b => b.removeConstraints prefs.isCompiled)) ∧
      Laid prefs.blendMode (o.purge prefs)
        (a.mapBones fun _ b => b.removeConstraints prefs.isCompiled) built o' a' ∧
      Stacked prefs (o.purge prefs) (a.mapBones fun _ b => b.removeConstraints prefs.isCompiled)
        built o' := by
  have ha₀ : (o.purge prefs).armature =
      some (a.mapBones fun _ b => b.removeConstraints prefs.isCompiled) := by
    simp only [Object.purge, ha, Option.map_some]
  obtain ⟨counts, rounds, report, built, o', a', hpurge, hposes, hlinked, hgated, hb, hbuilt, hlaid,
    hfaithful, hstacked⟩ :=
      (stacked_kept (purged_purge prefs o a)).rebuild l ho ha hnames (.start ha₀) hbones
  have htaken := built_rounds hposes hlinked hgated htargets
  refine ⟨rounds, built, o', a', ⟨⟨report, ?_⟩, hposes, ⟨counts, _, hpurge, hlinked⟩, hgated⟩,
    htaken, ?_, hlaid, hstacked⟩
  · rw [compileAll_idle, hb]
  · conv_lhs => rw [hstacked.eq_map hfaithful]
    rw [hbuilt, htaken]

/-- Two libraries with the same poses in different orders, with distinct names, each pose with
distinct bones and none reading a property of the rig itself, build the same poses. Nothing differs
outside the rig, and on it only the order of the constraints on each bone, of the drivers and of
the custom properties. -/
theorem compileAll_perm (prefs : Preferences) (rig : String) (s : Scene) (l l' : Library)
    (a : Armature) (ha : s.armature rig = .ok a) (hperm : l.poses.Perm l'.poses)
    (hnames : l.names.Nodup) (hbones : ∀ p ∈ l.poses, p.boneNames.Nodup)
    (htargets : ∀ p ∈ l.poses, p.kind = .simple → p.targetKind = .sceneProperty →
      p.target ≠ some rig) :
    ∃ rounds rounds' o₁ o₂, Course prefs rig l s rounds (s.setObject rig o₁) ∧
      Course prefs rig l' s rounds' (s.setObject rig o₂) ∧
      ((rounds.filter Round.built).map Round.pose).Perm
        ((rounds'.filter Round.built).map Round.pose) ∧
      o₁.Restacked o₂ := by
  obtain ⟨o, ho, hoa⟩ := Scene.object_of_armature ha
  have hnames' : l'.names.Nodup := (hperm.map _).nodup_iff.mp hnames
  have hmem : ∀ p ∈ l'.poses, p ∈ l.poses := fun p hp => hperm.mem_iff.mpr hp
  obtain ⟨rounds, built, o₁, a₁, hcourse, htaken, hbuilt, hlaid, hstacked⟩ :=
    exists_course prefs ho hoa hnames hbones htargets
  obtain ⟨rounds', built', o₂, a₂, hcourse', htaken', hbuilt', hlaid', hstacked'⟩ :=
    exists_course prefs ho hoa hnames' (fun p hp => hbones p (hmem p hp)) fun p hp =>
      htargets p (hmem p hp)
  have htakes : takes l' = takes l := by
    funext s p
    rw [takes, takes, Library.inputs_perm hperm hnames]
  have hof : Built.of prefs l' = Built.of prefs l := by
    funext a p
    rw [Built.of, Built.of, Library.inputs_perm hperm hnames]
  rw [htakes] at htaken' hbuilt'
  rw [hof] at hbuilt'
  refine ⟨rounds, rounds', o₁, o₂, hcourse, hcourse', ?_,
    hstacked.restacked hstacked' hlaid hlaid' ?_⟩
  · rw [htaken, htaken']
    exact hperm.filter _
  · rw [hbuilt, hbuilt']
    exact (hperm.filter _).map _

def jawPoses : List Pose :=
  [(Pose.ofChannel "Open" "Rig" "Jaw" ⟨.location, .y⟩).withBones ["Jaw"],
    (Pose.ofChannel "Wide" "Rig" "Jaw" ⟨.location, .x⟩).withBones ["Jaw"]]

def jawConstraints (poses : List Pose) : Option (List String) :=
  ((compileAll {} "Rig" { poses := poses } .idle jawScene).2.2.armature "Rig").toOption.bind
    fun a => (a.bones.get? "Jaw").map Bone.constraintNames

theorem compileAll_perm_jaw :
    (∃ a, jawScene.armature "Rig" = .ok a) ∧ jawPoses.Perm jawPoses.reverse ∧
    ({ poses := jawPoses } : Library).names.Nodup ∧ (∀ p ∈ jawPoses, p.boneNames.Nodup) ∧
    (∀ p ∈ jawPoses, p.kind = .simple → p.targetKind = .sceneProperty → p.target ≠ some "Rig") ∧
    jawConstraints jawPoses = some ["Limit", "AP-Open", "AP-Wide"] ∧
    jawConstraints jawPoses.reverse = some ["Limit", "AP-Wide", "AP-Open"] ∧
    ∃ rounds rounds' o₁ o₂,
      Course {} "Rig" { poses := jawPoses } jawScene rounds (jawScene.setObject "Rig" o₁) ∧
      Course {} "Rig" { poses := jawPoses.reverse } jawScene rounds' (jawScene.setObject "Rig" o₂) ∧
      ((rounds.filter Round.built).map Round.pose).Perm
        ((rounds'.filter Round.built).map Round.pose) ∧
      o₁.Restacked o₂ := by
  have hperm : jawPoses.Perm jawPoses.reverse := (List.reverse_perm jawPoses).symm
  have hnames : ({ poses := jawPoses } : Library).names.Nodup := by decide
  have hbones : ∀ p ∈ jawPoses, p.boneNames.Nodup := by decide
  have htargets : ∀ p ∈ jawPoses, p.kind = .simple → p.targetKind = .sceneProperty →
      p.target ≠ some "Rig" := by decide
  exact ⟨⟨_, rfl⟩, hperm, hnames, hbones, htargets, by decide, by decide,
    compileAll_perm {} "Rig" jawScene { poses := jawPoses }
      { poses := jawPoses.reverse } _ rfl hperm hnames hbones htargets⟩

end Network

end PoseRig
