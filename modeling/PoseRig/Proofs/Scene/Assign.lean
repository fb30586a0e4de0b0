import PoseRig.Proofs.Scene.Object

/-!
# Assigning actions

Making an action the active one of an object changes that object, and binds the action if it was not
bound yet. So over any number of assignments to objects of one kind the actions stay as they are but
for becoming bound to that kind.
-/

set_option autoImplicit false

namespace PoseRig

/-- The same actions in the same order, some of which have become bound to a kind of object. -/
structure BoundFrom (kind : ObjectKind) (t t' : Table Action) : Prop where
  names : t'.names = t.names
  values : ∀ name a, t.get? name = some a →
    t'.get? name = some a ∨ a.root = none ∧ t'.get? name = some { a with root := some kind }

namespace BoundFrom

variable {kind : ObjectKind} {t t' t'' : Table Action}

theorem refl (kind : ObjectKind) (t : Table Action) : BoundFrom kind t t :=
  ⟨rfl, fun _ _ h => Or.inl h⟩

theorem trans (h : BoundFrom kind t t') (h' : BoundFrom kind t' t'') : BoundFrom kind t t'' := by
  constructor
  · exact h'.names.trans h.names
  · intro name a ha
    rcases h.values name a ha with hsame | ⟨hroot, hbound⟩
    · exact h'.values name a hsame
    · rcases h'.values name _ hbound with hsame' | ⟨hroot', -⟩
      · exact Or.inr ⟨hroot, hsame'⟩
      · cases hroot'

theorem bind {name : String} {a : Action} (ha : t.get? name = some a) (hroot : a.root = none) :
    BoundFrom kind t (t.update name fun a => { a with root := some kind }) := by
  constructor
  · exact Table.names_update t name _
  · intro other b hb
    by_cases ho : other = name
    · subst ho
      obtain rfl := Option.some.inj (ha.symm.trans hb)
      right
      exact ⟨hroot, by simp [Table.get?_update, ha]⟩
    · left
      simp [Table.get?_update, ho, hb]

theorem content (h : BoundFrom kind t t') {name : String} {a : Action} (ha : t.get? name = some a) :
    ∃ a', t'.get? name = some a' ∧ { a' with root := a.root } = a := by
  rcases h.values name a ha with hsame | ⟨-, hbound⟩
  · exact ⟨a, hsame, rfl⟩
  · exact ⟨_, hbound, rfl⟩

end BoundFrom

def Assignable (kind : ObjectKind) (actions : Table Action) (action : Option String) : Prop :=
  ∀ name, action = some name →
    ∃ a, actions.get? name = some a ∧ (a.root = none ∨ a.root = some kind)

theorem BoundFrom.assignable {kind : ObjectKind} {t t' : Table Action} {action : Option String}
    (h : BoundFrom kind t t') (ha : Assignable kind t action) : Assignable kind t' action := by
  intro name hname
  obtain ⟨a, hget, hroot⟩ := ha name hname
  rcases h.values name a hget with hsame | ⟨-, hbound⟩
  · exact ⟨a, hsame, hroot⟩
  · exact ⟨_, hbound, Or.inr rfl⟩

namespace Scene

variable {s s' : Scene} {rig : String} {o : Object} {action : Option String}

theorem assignAction_ok (ho : s.object rig = .ok o) (h : s.assignAction rig action = .ok s') :
    ∃ actions, BoundFrom o.kind s.actions actions ∧
      s' = { s with actions := actions }.setObject rig (o.setActiveAction action) := by
  cases action with
  | none =>
    refine ⟨s.actions, BoundFrom.refl _ _, ?_⟩
    simpa [assignAction, ho, updateObject_eq ho, eq_comm] using h
  | some name =>
    cases ha : s.actions.get? name with
    | none => simp [assignAction, ho, ha] at h
    | some a =>
      cases hr : a.root with
      | none =>
        refine ⟨_, BoundFrom.bind ha hr, ?_⟩
        simp only [assignAction, ho, ha, hr, updateObject_eq ho, Except.ok.injEq] at h
        exact h.symm
      | some root =>
        refine ⟨s.actions, BoundFrom.refl _ _, ?_⟩
        by_cases hk : root = o.kind
        · simpa [assignAction, ho, ha, hr, hk, updateObject_eq ho, eq_comm] using h
        · simp [assignAction, ho, ha, hr, hk] at h

theorem assignAction_of_assignable (ho : s.object rig = .ok o)
    (ha : Assignable o.kind s.actions action) : ∃ s', s.assignAction rig action = .ok s' := by
  cases action with
  | none => exact ⟨_, by simp only [assignAction, ho]; rfl⟩
  | some name =>
    obtain ⟨a, hget, hroot | hroot⟩ := ha name rfl
    · exact ⟨_, by simp only [assignAction, ho, hget, hroot]; rfl⟩
    · exact ⟨_, by simp only [assignAction, ho, hget, hroot, if_true]; rfl⟩

theorem assignable_of_assignAction (ho : s.object rig = .ok o)
    (h : s.assignAction rig action = .ok s') : Assignable o.kind s.actions action := by
  rintro name rfl
  cases hget : s.actions.get? name with
  | none => simp [assignAction, ho, hget] at h
  | some a =>
    refine ⟨a, rfl, ?_⟩
    cases hr : a.root with
    | none => exact Or.inl rfl
    | some root =>
      by_cases hk : root = o.kind
      · exact Or.inr (by rw [hk])
      · simp [assignAction, ho, hget, hr, hk] at h

end Scene

end PoseRig
