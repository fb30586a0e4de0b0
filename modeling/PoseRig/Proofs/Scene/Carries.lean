import PoseRig.Proofs.Naming.Fresh
import PoseRig.Proofs.Scene.Object

/-!
# Constraints that a bone carries

A bone carries a constraint when it has no other one of that name. Adding a constraint keeps what is
carried and is carried itself, since it gets a free name; changing a constraint keeps what is
carried under other names.
-/

set_option autoImplicit false

namespace PoseRig

namespace Bone

variable {b : Bone} {name other : String} {c : Constraint}

/-- The one constraint of this name on the bone is `c`. -/
def Carries (b : Bone) (name : String) (c : Constraint) : Prop :=
  (b.constraints.filter fun d => d.name == name) = [c]

theorem Carries.mem (h : b.Carries name c) : c ∈ b.constraints ∧ c.name = name := by
  have hc : c ∈ b.constraints.filter fun d => d.name == name := by
    rw [h]
    exact List.mem_singleton_self c
  simpa using List.mem_filter.mp hc

theorem Carries.constraint? (h : b.Carries name c) : b.constraint? name = some c := by
  rw [Bone.constraint?, ← List.head?_filter, h, List.head?_cons]

theorem Carries.mem_constraintNames (h : b.Carries name c) : name ∈ b.constraintNames :=
  List.mem_map.mpr ⟨c, h.mem⟩

theorem filter_eq_nil_of_not_mem (h : name ∉ b.constraintNames) :
    (b.constraints.filter fun d => d.name == name) = [] := by
  rw [List.filter_eq_nil_iff]
  intro d hd hname
  exact h (List.mem_map.mpr ⟨d, hd, by simpa using hname⟩)

theorem carries_addConstraint (b : Bone) (c : Constraint) :
    (b.addConstraint c).Carries (b.freshName c.name) { c with name := b.freshName c.name } := by
  have hfree := filter_eq_nil_of_not_mem (Naming.fresh_not_mem b.constraintNames c.name)
  rw [Carries, addConstraint, List.filter_append, freshName, hfree]
  simp

theorem Carries.addConstraint (h : b.Carries name c) (new : Constraint) :
    (b.addConstraint new).Carries name c := by
  have hne : b.freshName new.name ≠ name := by
    intro heq
    apply Naming.fresh_not_mem b.constraintNames new.name
    rw [← freshName, heq]
    exact h.mem_constraintNames
  have hlast :
      ([{ new with name := b.freshName new.name }].filter fun d => d.name == name) = [] := by
    simp [hne]
  rw [Carries, Bone.addConstraint, List.filter_append, hlast, List.append_nil]
  exact h

theorem filter_updateFirst_self {f : Constraint → Constraint} (hf : ∀ d, (f d).name = d.name)
    {cs : List Constraint} (h : (cs.filter fun d => d.name == name) = [c]) :
    ((updateFirst name f cs).filter fun d => d.name == name) = [f c] := by
  induction cs with
  | nil => cases h
  | cons d r ih =>
    by_cases hd : d.name = name
    · rw [List.filter_cons_of_pos (by simpa using hd)] at h
      obtain ⟨rfl, hr⟩ := List.cons.inj h
      rw [updateFirst, if_pos hd, List.filter_cons_of_pos (by simpa [hf] using hd), hr]
    · rw [List.filter_cons_of_neg (by simpa using hd)] at h
      rw [updateFirst, if_neg hd, List.filter_cons_of_neg (by simpa using hd)]
      exact ih h

theorem filter_updateFirst_other {f : Constraint → Constraint} (hf : ∀ d, (f d).name = d.name)
    (hne : other ≠ name) (cs : List Constraint) :
    ((updateFirst other f cs).filter fun d => d.name == name) =
      cs.filter fun d => d.name == name := by
  induction cs with
  | nil => rfl
  | cons d r ih =>
    by_cases hd : d.name = other
    · have hname : ¬d.name = name := fun h => hne (hd.symm.trans h)
      rw [updateFirst, if_pos hd, List.filter_cons_of_neg (by simpa [hf] using hname),
        List.filter_cons_of_neg (by simpa using hname)]
    · rw [updateFirst, if_neg hd, List.filter_cons, List.filter_cons, ih]

theorem Carries.updateConstraint_self (h : b.Carries name c) {f : Constraint → Constraint}
    (hf : ∀ d, (f d).name = d.name) : (b.updateConstraint name f).Carries name (f c) :=
  filter_updateFirst_self hf h

theorem Carries.updateConstraint (h : b.Carries name c) {f : Constraint → Constraint}
    (hf : ∀ d, (f d).name = d.name) (hne : other ≠ name) :
    (b.updateConstraint other f).Carries name c :=
  (filter_updateFirst_other hf hne b.constraints).trans h

theorem updateFirst_const {f : Constraint → Constraint} {cs : List Constraint}
    (h : (cs.find? fun d => d.name == name) = some c) :
    updateFirst name (fun _ => f c) cs = updateFirst name f cs := by
  induction cs with
  | nil => cases h
  | cons d r ih =>
    by_cases hd : d.name = name
    · rw [List.find?_cons_of_pos (by simpa using hd)] at h
      obtain rfl := Option.some.inj h
      rw [updateFirst, updateFirst, if_pos hd, if_pos hd]
    · rw [List.find?_cons_of_neg (by simpa using hd)] at h
      rw [updateFirst, updateFirst, if_neg hd, if_neg hd, ih h]

end Bone

namespace Armature

variable {a : Armature} {bone name : String} {c : Constraint}

def Carries (a : Armature) (bone name : String) (c : Constraint) : Prop :=
  ∃ b, a.bones.get? bone = some b ∧ b.Carries name c

theorem Carries.updateBone_self (h : a.Carries bone name c) {f : Bone → Bone} {d : Constraint}
    (hf : ∀ b, b.Carries name c → (f b).Carries name d) :
    (a.updateBone bone f).Carries bone name d := by
  obtain ⟨b, hb, hc⟩ := h
  exact ⟨f b, get?_updateBone_self hb, hf b hc⟩

theorem Carries.updateBone (h : a.Carries bone name c) {changed : String} {f : Bone → Bone}
    (hf : changed = bone → ∀ b, b.Carries name c → (f b).Carries name c) :
    (a.updateBone changed f).Carries bone name c := by
  by_cases hchanged : changed = bone
  · rw [hchanged]
    exact h.updateBone_self (hf hchanged)
  · obtain ⟨b, hb, hc⟩ := h
    exists b
    constructor
    · simp [Armature.updateBone, Table.get?_update, Ne.symm hchanged, hb]
    · exact hc

end Armature

end PoseRig
