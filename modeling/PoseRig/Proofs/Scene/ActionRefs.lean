import PoseRig.Network.Purge
import PoseRig.Proofs.Naming.Fresh
import PoseRig.Proofs.Scene.Assign
import PoseRig.Proofs.Scene.Write

/-!
# References to actions

A scene refers to actions through the active actions of its objects and through constraints. It is
grounded on a list of names when these are the names of its actions and it refers to no other.
Changes that put in no reference keep it grounded on the same names; adding, removing and renaming
an action change the names and the references together.
-/

set_option autoImplicit false

namespace PoseRig

def Bone.actionRefs (b : Bone) : List String := b.constraints.filterMap (·.action)

def Armature.actionRefs (a : Armature) : List String := a.bones.values.flatMap Bone.actionRefs

def Object.actionRefs (o : Object) : List String :=
  o.activeAction.toList ++ o.armature.toList.flatMap Armature.actionRefs

def Scene.actionRefs (s : Scene) : List String := s.objects.values.flatMap Object.actionRefs

variable {names names' : List String}

namespace Bone

variable {b : Bone}

theorem actionRefs_subset_iff :
    b.actionRefs ⊆ names ↔ ∀ c ∈ b.constraints, c.action.toList ⊆ names := by
  constructor
  · intro h c hc name hname
    exact h (List.mem_filterMap.mpr ⟨c, hc, Option.mem_toList.mp hname⟩)
  · intro h name hname
    obtain ⟨c, hc, haction⟩ := List.mem_filterMap.mp hname
    exact h c hc (Option.mem_toList.mpr haction)

theorem actionRefs_addConstraint (h : b.actionRefs ⊆ names) {c : Constraint}
    (hc : c.action.toList ⊆ names) : (b.addConstraint c).actionRefs ⊆ names := by
  rw [actionRefs_subset_iff] at h ⊢
  intro d hd
  rcases List.mem_append.mp hd with hd | hd
  · exact h d hd
  · rw [List.mem_singleton.mp hd]
    exact hc

theorem actionRefs_removeConstraints (h : b.actionRefs ⊆ names) (p : String → Bool) :
    (b.removeConstraints p).actionRefs ⊆ names := by
  rw [actionRefs_subset_iff] at h ⊢
  exact fun c hc => h c (List.mem_filter.mp hc).1

theorem actionRefs_setEnabled (b : Bone) (prefs : Preferences) (enabled : Bool) :
    (b.setEnabled prefs enabled).actionRefs = b.actionRefs := by
  rw [actionRefs, setEnabled, List.filterMap_map]
  congr 1
  funext c
  by_cases hc : prefs.isCompiled c.name = true <;> simp [hc]

theorem mem_updateFirst {name : String} {f : Constraint → Constraint} {cs : List Constraint}
    {d : Constraint} (h : d ∈ updateFirst name f cs) : d ∈ cs ∨ ∃ c ∈ cs, d = f c := by
  induction cs with
  | nil => exact Or.inl h
  | cons c r ih =>
    rw [updateFirst] at h
    split at h
    · rcases List.mem_cons.mp h with rfl | h
      · exact Or.inr ⟨c, List.mem_cons_self, rfl⟩
      · exact Or.inl (List.mem_cons_of_mem c h)
    · rcases List.mem_cons.mp h with rfl | h
      · exact Or.inl List.mem_cons_self
      · rcases ih h with h | ⟨e, he, rfl⟩
        · exact Or.inl (List.mem_cons_of_mem c h)
        · exact Or.inr ⟨e, List.mem_cons_of_mem c he, rfl⟩

theorem action_set? {c c' : Constraint} {part : String} {x : Scalar} (h : c.set? part x = some c') :
    c'.action = c.action := by
  obtain ⟨-, rfl⟩ | ⟨-, rfl⟩ := Constraint.set?_cases h
  · rfl
  · rfl

theorem actionRefs_write? {b' : Bone} (h : b.actionRefs ⊆ names) {selectors : List Selector}
    {x : Scalar} (hw : b.write? selectors x = some b') : b'.actionRefs ⊆ names := by
  obtain ⟨-, -, rfl⟩ | ⟨name, part, c, c', -, hc, hset, rfl⟩ | ⟨-, -, -, -, -, rfl⟩ :=
    write?_cases hw
  · exact h
  · rw [actionRefs_subset_iff] at h ⊢
    intro d hd
    rcases mem_updateFirst hd with hd | ⟨e, -, rfl⟩
    · exact h d hd
    · rw [action_set? hset]
      exact h c (List.mem_of_find?_eq_some hc)
  · exact h

end Bone

namespace Armature

variable {a : Armature}

theorem actionRefs_subset_iff :
    a.actionRefs ⊆ names ↔ ∀ n b, a.bones.get? n = some b → b.actionRefs ⊆ names := by
  constructor
  · intro h n b hb name hname
    exact h (List.mem_flatMap.mpr ⟨b, (a.bones.mem_values b).mpr ⟨n, hb⟩, hname⟩)
  · intro h name hname
    obtain ⟨b, hb, hname⟩ := List.mem_flatMap.mp hname
    obtain ⟨n, hn⟩ := (a.bones.mem_values b).mp hb
    exact h n b hn hname

theorem actionRefs_mapBones (h : a.actionRefs ⊆ names) {f : String → Bone → Bone}
    (hf : ∀ n b, b.actionRefs ⊆ names → (f n b).actionRefs ⊆ names') :
    (a.mapBones f).actionRefs ⊆ names' := by
  rw [actionRefs_subset_iff] at h ⊢
  intro n b hb
  rw [mapBones, Table.get?_map] at hb
  obtain ⟨b', hb', rfl⟩ := Option.map_eq_some_iff.mp hb
  exact hf n b' (h n b' hb')

theorem actionRefs_updateBone (h : a.actionRefs ⊆ names) {bone : String} {f : Bone → Bone}
    (hf : ∀ b, b.actionRefs ⊆ names → (f b).actionRefs ⊆ names) :
    (a.updateBone bone f).actionRefs ⊆ names := by
  apply actionRefs_mapBones h
  intro n b hb
  by_cases hn : n = bone
  · rw [if_pos hn]
    exact hf b hb
  · rwa [if_neg hn]

end Armature

namespace Object

variable {o : Object}

theorem actionRefs_subset_iff :
    o.actionRefs ⊆ names ↔
      o.activeAction.toList ⊆ names ∧ ∀ a, o.armature = some a → a.actionRefs ⊆ names := by
  rw [actionRefs, List.append_subset]
  apply and_congr_right
  intro _
  cases o.armature <;> simp

theorem actionRefs_armature {o' : Object} (h : o.actionRefs ⊆ names)
    (hactive : o'.activeAction = o.activeAction) {f : Armature → Armature}
    (harmature : o'.armature = o.armature.map f)
    (hf : ∀ a, a.actionRefs ⊆ names → (f a).actionRefs ⊆ names) : o'.actionRefs ⊆ names := by
  rw [actionRefs_subset_iff] at h ⊢
  refine ⟨hactive ▸ h.1, ?_⟩
  intro a ha
  rw [harmature] at ha
  obtain ⟨a', ha', rfl⟩ := Option.map_eq_some_iff.mp ha
  exact hf a' (h.2 a' ha')

theorem actionRefs_setActiveAction (h : o.actionRefs ⊆ names) {action : Option String}
    (ha : action.toList ⊆ names) : (o.setActiveAction action).actionRefs ⊆ names := by
  rw [actionRefs_subset_iff] at h ⊢
  exact ⟨ha, h.2⟩

theorem activeAction_addDriver (o : Object) (d : Driver) :
    (o.addDriver d).activeAction = o.activeAction := by
  unfold activeAction addDriver animationOrNew
  cases o.animation <;> rfl

theorem activeAction_removeWhere (o : Object) (p : Path → Bool) :
    (o.animation.map fun a => a.removeWhere p).bind (·.action) = o.activeAction := by
  unfold activeAction
  cases o.animation <;> rfl

theorem actionRefs_purge (h : o.actionRefs ⊆ names) (prefs : Preferences) :
    (o.purge prefs).actionRefs ⊆ names :=
  actionRefs_armature h (activeAction_removeWhere o prefs.isCompiledPath) rfl fun _ ha =>
    Armature.actionRefs_mapBones ha fun _ _ hb => Bone.actionRefs_removeConstraints hb _

theorem actionRefs_write {o' : Object} (h : o.actionRefs ⊆ names) {name : String} {path : Path}
    {x : Scalar} (hw : o.write name path x = .ok o') : o'.actionRefs ⊆ names := by
  obtain ⟨-, -, rfl⟩ | ⟨-, -, -, -, -, rfl⟩ | ⟨bone, rest, a, b, b', -, ha, hb, hb', rfl⟩ :=
    write_cases hw
  · exact h
  · exact h
  · have hrefs := (actionRefs_subset_iff.mp h).2 a ha
    have hbone := Armature.actionRefs_subset_iff.mp hrefs bone b hb
    have hwritten : (a.updateBone bone fun _ => b').actionRefs ⊆ names :=
      Armature.actionRefs_updateBone hrefs fun _ _ => Bone.actionRefs_write? hbone hb'
    exact actionRefs_armature h rfl (by rw [ha]; rfl) fun _ _ => hwritten

end Object

namespace Scene

variable {s s' : Scene} {o : Object} {rig : String}

def activeAction? (s : Scene) (name : String) : Option String :=
  (s.objects.get? name).bind (·.activeAction)

theorem activeAction?_updateObject (s : Scene) (name : String) {f : Object → Object}
    (hf : ∀ o, (f o).activeAction = o.activeAction) :
    (s.updateObject name f).activeAction? name = s.activeAction? name := by
  rw [activeAction?, updateObject, Table.get?_update, if_pos rfl, Option.bind_map]
  exact congrArg (fun g => (s.objects.get? name).bind g) (funext hf)

theorem actionRefs_subset_iff :
    s.actionRefs ⊆ names ↔ ∀ n o, s.objects.get? n = some o → o.actionRefs ⊆ names := by
  constructor
  · intro h n o ho name hname
    exact h (List.mem_flatMap.mpr ⟨o, (s.objects.mem_values o).mpr ⟨n, ho⟩, hname⟩)
  · intro h name hname
    obtain ⟨o, ho, hname⟩ := List.mem_flatMap.mp hname
    obtain ⟨n, hn⟩ := (s.objects.mem_values o).mp ho
    exact h n o hn hname

theorem renameAction_ok {old new final : String} (h : s.renameAction old new = .ok (final, s')) :
    (new = old ∧ final = old ∧ s' = s) ∨
      ∃ a, s.actions.get? old = some a ∧ final = Naming.fresh (s.actions.erase old).names new ∧
        s' = { s with actions := (s.actions.erase old).insert final a }.retargetActions old
          (some final) := by
  unfold renameAction at h
  split at h
  · rename_i hsame
    cases h
    exact Or.inl ⟨hsame.symm, rfl, rfl⟩
  · cases ha : s.actions.get? old with
    | none => simp [ha] at h
    | some a =>
      simp only [ha, addAction, Except.ok.injEq, Prod.mk.injEq] at h
      obtain ⟨rfl, rfl⟩ := h
      exact Or.inr ⟨a, rfl, rfl, rfl⟩

theorem get?_renameAction {old new final name : String} {x : Action}
    (h : s.renameAction old new = .ok (final, s')) (hx : s.actions.get? name = some x) :
    s'.actions.get? (if name = old then final else name) = some x := by
  obtain ⟨-, rfl, rfl⟩ | ⟨a, ha, hfinal, rfl⟩ := renameAction_ok h
  · split_ifs with hname
    · rwa [← hname]
    · exact hx
  · show ((s.actions.erase old).insert final a).get? _ = some x
    rw [Table.get?_insert]
    by_cases hname : name = old
    · rw [if_pos hname, if_pos rfl, ← ha, ← hname, hx]
    · have hthere : (s.actions.erase old).get? name = some x := by
        rw [Table.get?_erase, if_neg hname, hx]
      have hne : name ≠ final := by
        rintro rfl
        apply Naming.fresh_not_mem (s.actions.erase old).names new
        rw [← hfinal, ← Table.contains_iff, Table.contains, hthere]
        rfl
      rw [if_neg hname, if_neg hne, hthere]

/-- The scene has actions under these names, in this order, and refers to no other. -/
structure Grounded (names : List String) (s : Scene) : Prop where
  actions : s.actions.names = names
  refs : s.actionRefs ⊆ names

namespace Grounded

theorem object (h : s.Grounded names) (ho : s.object rig = .ok o) : o.actionRefs ⊆ names :=
  actionRefs_subset_iff.mp h.refs rig o (object_eq_ok.mp ho)

theorem setObject (h : s.Grounded names) (name : String) (ho : o.actionRefs ⊆ names) :
    (s.setObject name o).Grounded names := by
  refine ⟨h.actions, ?_⟩
  rw [actionRefs_subset_iff]
  intro n o' ho'
  rw [Scene.setObject, Table.get?_insert] at ho'
  split at ho'
  · obtain rfl := Option.some.inj ho'
    exact ho
  · exact actionRefs_subset_iff.mp h.refs n o' ho'

theorem updateObject (h : s.Grounded names) {f : Object → Object}
    (hf : ∀ o, o.actionRefs ⊆ names → (f o).actionRefs ⊆ names) :
    (s.updateObject rig f).Grounded names := by
  refine ⟨h.actions, ?_⟩
  rw [actionRefs_subset_iff]
  intro n o ho
  rw [Scene.updateObject, Table.get?_update] at ho
  split at ho
  · obtain ⟨o', ho', rfl⟩ := Option.map_eq_some_iff.mp ho
    exact hf o' (actionRefs_subset_iff.mp h.refs n o' ho')
  · exact actionRefs_subset_iff.mp h.refs n o ho

theorem updateArmature (h : s.Grounded names) {f : Armature → Armature}
    (hf : ∀ a, a.actionRefs ⊆ names → (f a).actionRefs ⊆ names) :
    (s.updateArmature rig f).Grounded names :=
  h.updateObject fun _ ho => Object.actionRefs_armature ho rfl rfl hf

theorem mapBones (h : s.Grounded names) {f : String → Bone → Bone}
    (hf : ∀ n b, b.actionRefs ⊆ names → (f n b).actionRefs ⊆ names) :
    (s.updateArmature rig fun a => a.mapBones f).Grounded names :=
  h.updateArmature fun _ ha => Armature.actionRefs_mapBones ha hf

theorem congr (h : s.Grounded names) (hobjects : s'.objects = s.objects)
    (hactions : s'.actions.names = s.actions.names) : s'.Grounded names := by
  constructor
  · rw [hactions, h.actions]
  · rw [actionRefs, hobjects]
    exact h.refs

theorem assignAction (h : s.Grounded names) {action : Option String}
    (hs : s.assignAction rig action = .ok s') : s'.Grounded names := by
  cases ho : s.object rig with
  | error e => simp [Scene.assignAction, ho] at hs
  | ok o =>
    have haction : action.toList ⊆ names := by
      intro name hname
      obtain rfl := Option.mem_toList.mp hname
      cases hget : s.actions.get? name with
      | none => simp [Scene.assignAction, ho, hget] at hs
      | some a =>
        rw [← h.actions]
        exact (s.actions.contains_iff name).mp (by rw [Table.contains, hget]; rfl)
    obtain ⟨actions, hbound, rfl⟩ := assignAction_ok ho hs
    have hbase : ({ s with actions := actions } : Scene).Grounded names := h.congr rfl hbound.names
    exact hbase.setObject rig (Object.actionRefs_setActiveAction (h.object ho) haction)

theorem writeProperty (h : s.Grounded names) {object : String} {path : Path} {x : Scalar}
    (hs : s.writeProperty object path x = .ok s') : s'.Grounded names := by
  obtain ⟨o, o', ho, hw, rfl⟩ := writeProperty_cases hs
  exact h.setObject object (Object.actionRefs_write (h.object ho) hw)

theorem runDriver (h : s.Grounded names) (object : String) (d : Driver) :
    (Scene.runDriver object s d).2.Grounded names := by
  obtain ⟨e, -, hd⟩ | ⟨x, e, -, -, hd⟩ | ⟨x, s', -, hw, hd⟩ := runDriver_outcome object s d
  · rw [hd]
    exact h
  · rw [hd]
    exact h
  · rw [hd]
    exact h.writeProperty hw

theorem runDrivers (h : s.Grounded names) (object : String) (ds : List Driver) :
    (Scene.runDrivers object ds s).2.Grounded names := by
  induction ds generalizing s with
  | nil => exact h
  | cons d r ih => exact ih (h.runDriver object d)

theorem addAction (h : s.Grounded names) (name : String) (a : Action) :
    (s.addAction name a).2.Grounded (names ++ [(s.addAction name a).1]) := by
  have hfree : (s.addAction name a).1 ∉ s.actions.names := Naming.fresh_not_mem s.actions.names name
  constructor
  · have hnames := s.actions.names_insert (s.addAction name a).1 a
    rw [if_neg hfree, h.actions] at hnames
    exact hnames
  · exact List.Subset.trans h.refs (List.subset_append_left _ _)

/-- With `old` gone, or become `new`, what was among the names is among the other names. -/
structure Renaming (old : String) (new : Option String) (names names' : List String) : Prop where
  kept : ∀ name ∈ names, name ≠ old → name ∈ names'
  made : new.toList ⊆ names'

variable {old : String} {new : Option String}

theorem Renaming.retarget (h : Renaming old new names names') {reference : Option String}
    (hr : reference.toList ⊆ names) : (Scene.retarget old new reference).toList ⊆ names' := by
  unfold Scene.retarget
  split
  · exact h.made
  · rename_i hold
    intro name hname
    apply h.kept name (hr hname)
    rintro rfl
    exact hold (Option.mem_toList.mp hname)

theorem Renaming.retargetBone (h : Renaming old new names names') {b : Bone}
    (hb : b.actionRefs ⊆ names) : (Scene.retargetBone old new b).actionRefs ⊆ names' := by
  rw [Bone.actionRefs_subset_iff] at hb ⊢
  intro c hc
  obtain ⟨c', hc', rfl⟩ := List.mem_map.mp hc
  exact h.retarget (hb c' hc')

theorem Renaming.retargetObject (h : Renaming old new names names') (ho : o.actionRefs ⊆ names) :
    (Scene.retargetObject old new o).actionRefs ⊆ names' := by
  rw [Object.actionRefs_subset_iff] at ho ⊢
  constructor
  · cases hanimation : o.animation with
    | none => simp [Scene.retargetObject, Object.activeAction, hanimation]
    | some d =>
      have hactive : d.action.toList ⊆ names := by
        simpa [Object.activeAction, hanimation] using ho.1
      simpa [Scene.retargetObject, Object.activeAction, hanimation] using h.retarget hactive
  · intro a ha
    obtain ⟨a', ha', rfl⟩ := Option.map_eq_some_iff.mp ha
    exact Armature.actionRefs_mapBones (ho.2 a' ha') fun _ _ hb => h.retargetBone hb

theorem retargetActions (hactions : s.actions.names = names') (hrefs : s.actionRefs ⊆ names)
    (h : Renaming old new names names') : (s.retargetActions old new).Grounded names' := by
  refine ⟨hactions, ?_⟩
  rw [actionRefs_subset_iff] at hrefs ⊢
  intro n o ho
  rw [Scene.retargetActions, Table.get?_map] at ho
  obtain ⟨o', ho', rfl⟩ := Option.map_eq_some_iff.mp ho
  exact h.retargetObject (hrefs n o' ho')

theorem removeAction (h : s.Grounded names) (name : String) :
    ∃ names', (s.removeAction name).Grounded names' ∧ Renaming name none names names' := by
  unfold Scene.removeAction
  split
  · have hnames : (s.actions.erase name).names = names.filter fun n => n != name := by
      rw [Table.names_erase, h.actions]
    have hrenaming : Renaming name none names (names.filter fun n => n != name) := by
      constructor
      · intro n hn hne
        exact List.mem_filter.mpr ⟨hn, by simpa using hne⟩
      · exact List.nil_subset _
    exact ⟨_, retargetActions hnames h.refs hrenaming, hrenaming⟩
  · exact ⟨names, h, fun n hn _ => hn, List.nil_subset _⟩

theorem renameAction (h : s.Grounded names) {old new final : String} (hold : old ∈ names)
    (hs : s.renameAction old new = .ok (final, s')) :
    ∃ names', s'.Grounded names' ∧ Renaming old (some final) names names' := by
  obtain ⟨-, rfl, rfl⟩ | ⟨a, -, hfinal, rfl⟩ := renameAction_ok hs
  · exact ⟨names, h, fun n hn _ => hn, by simpa using hold⟩
  · have hnames := (s.actions.erase old).names_insert final a
    rw [if_neg (hfinal ▸ Naming.fresh_not_mem _ new)] at hnames
    have hrenaming : Renaming old (some final) names ((s.actions.erase old).names ++ [final]) := by
      constructor
      · intro n hn hne
        rw [Table.names_erase, h.actions]
        exact List.mem_append_left _ (List.mem_filter.mpr ⟨hn, by simpa using hne⟩)
      · simp
    exact ⟨_, retargetActions hnames h.refs hrenaming, hrenaming⟩

end Grounded

end Scene

end PoseRig
