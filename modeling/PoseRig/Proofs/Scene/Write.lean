import PoseRig.Scene.Evaluate

/-!
# What a write replaces

Each write inverted: the selectors it accepts and the one part that it replaces. What a write keeps
follows from the form of its result, and what a driver keeps from what a write keeps.
-/

set_option autoImplicit false

namespace PoseRig

variable {x : Scalar}

theorem Constraint.set?_cases {c c' : Constraint} {part : String} (h : c.set? part x = some c') :
    part = "eval_time" ∧ c' = { c with evalTime := x } ∨
      part = "influence" ∧ c' = { c with influence := x } := by
  unfold set? at h
  split at h
  · exact Or.inl ⟨‹_›, (Option.some.inj h).symm⟩
  · split at h
    · exact Or.inr ⟨‹_›, (Option.some.inj h).symm⟩
    · cases h

theorem Constraint.name_set? {c c' : Constraint} {part : String} (h : c.set? part x = some c') :
    c'.name = c.name := by
  obtain ⟨-, rfl⟩ | ⟨-, rfl⟩ := set?_cases h
  · rfl
  · rfl

theorem Bone.write?_cases {b b' : Bone} {selectors : List Selector}
    (h : b.write? selectors x = some b') :
    (∃ name, selectors = [.key name] ∧
      b' = { b with properties := b.properties.insert name (.float x) }) ∨
    (∃ name part c c', selectors = [.field "constraints", .key name, .field part] ∧
      b.constraint? name = some c ∧ c.set? part x = some c' ∧
      b' = b.updateConstraint name fun _ => c') ∨
    (∃ part i t, selectors = [.field part, .index i] ∧
      b.transform.setComponent? part i x = some t ∧ b' = { b with transform := t }) := by
  unfold write? at h
  split at h
  · rename_i name
    exact Or.inl ⟨name, rfl, (Option.some.inj h).symm⟩
  · rename_i constraints name part
    split at h
    · rename_i hconstraints
      cases hc : b.constraint? name with
      | none => simp [hc] at h
      | some c =>
        simp only [hc, Option.map_eq_some_iff] at h
        obtain ⟨c', hset, hb'⟩ := h
        exact Or.inr (Or.inl ⟨name, part, c, c', by rw [hconstraints], hc, hset, hb'.symm⟩)
    · cases h
  · rename_i part i
    obtain ⟨t, ht, hb'⟩ := Option.map_eq_some_iff.mp h
    exact Or.inr (Or.inr ⟨part, i, t, rfl, ht, hb'.symm⟩)
  · cases h

theorem Object.write_cases {o o' : Object} {name : String} {path : Path}
    (h : o.write name path x = .ok o') :
    (∃ key, path.selectors = [.key key] ∧ o' = o.setProperty key (.float x)) ∨
    (∃ part i t, path.selectors = [.field part, .index i] ∧
      o.transform.setComponent? part i x = some t ∧ o' = { o with transform := t }) ∨
    (∃ bone rest a b b', path.selectors = .field "pose" :: .field "bones" :: .key bone :: rest ∧
      o.armature = some a ∧ a.bones.get? bone = some b ∧ b.write? rest x = some b' ∧
      o' = { o with armature := some (a.updateBone bone fun _ => b') }) := by
  unfold write at h
  split at h
  · rename_i key hselectors
    exact Or.inl ⟨key, hselectors, (Except.ok.inj h).symm⟩
  · rename_i part i hselectors
    split at h
    · rename_i t ht
      exact Or.inr (Or.inl ⟨part, i, t, hselectors, ht, (Except.ok.inj h).symm⟩)
    · cases h
  · rename_i pose bones bone rest hselectors
    split at h
    · rename_i hfields
      obtain ⟨rfl, rfl⟩ := hfields
      cases hb : o.armature.bind fun a => a.bones.get? bone with
      | none => simp [hb] at h
      | some b =>
        obtain ⟨a, ha, hab⟩ := Option.bind_eq_some_iff.mp hb
        cases hb' : b.write? rest x with
        | none => simp [hb, hb'] at h
        | some b' =>
          simp only [hb, hb', Except.ok.injEq] at h
          refine Or.inr (Or.inr ⟨bone, rest, a, b, b', hselectors, ha, hab, hb', ?_⟩)
          rw [← h, ha, Option.map_some]
    · cases h
  · cases h

theorem Scene.writeProperty_cases {s s' : Scene} {object : String} {path : Path}
    (h : s.writeProperty object path x = .ok s') :
    ∃ o o', s.object object = .ok o ∧ o.write object path x = .ok o' ∧
      s' = s.setObject object o' := by
  unfold writeProperty at h
  cases ho : s.object object with
  | error e => simp [ho] at h
  | ok o =>
    cases hw : o.write object path x with
    | error e => simp [ho, hw] at h
    | ok o' =>
      simp only [ho, hw, Except.ok.injEq] at h
      exact ⟨o, o', rfl, hw, h.symm⟩

theorem Scene.runDriver_outcome (rig : String) (s : Scene) (d : Driver) :
    (∃ e, s.driverValue d = .error e ∧ runDriver rig s d = (⟨d.dataPath, none, false⟩, s)) ∨
      (∃ x e, s.driverValue d = .ok x ∧ s.writeProperty rig d.dataPath x = .error e ∧
        runDriver rig s d = (⟨d.dataPath, some x, false⟩, s)) ∨
      ∃ x s', s.driverValue d = .ok x ∧ s.writeProperty rig d.dataPath x = .ok s' ∧
        runDriver rig s d = (⟨d.dataPath, some x, true⟩, s') := by
  cases hvalue : s.driverValue d with
  | error e => exact Or.inl ⟨e, rfl, by simp [runDriver, hvalue]⟩
  | ok x =>
    cases hw : s.writeProperty rig d.dataPath x with
    | error e => exact Or.inr (Or.inl ⟨x, e, rfl, hw, by simp [runDriver, hvalue, hw]⟩)
    | ok s' => exact Or.inr (Or.inr ⟨x, s', rfl, hw, by simp [runDriver, hvalue, hw]⟩)

end PoseRig
