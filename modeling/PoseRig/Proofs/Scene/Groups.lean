import Mathlib.Data.List.Nodup
import PoseRig.Scene.Action

/-!
# The groups of an action

An action lists the groups of its curves beside the curves themselves. Adding a curve lists its
group when it is new, and leaving out the flat curves strikes the groups that are left without a
curve. However the two are mixed, starting from an action without curves, the list names each group
of a curve once and nothing else.
-/

set_option autoImplicit false

namespace PoseRig

inductive CurveEdit where
  | add (c : Curve)
  | dropFlat

namespace Action

variable {a : Action} {c : Curve} {g : String}

def edit (a : Action) : CurveEdit → Action
  | .add c => a.addCurve c
  | .dropFlat => a.withoutFlat

def editAll (a : Action) (edits : List CurveEdit) : Action := edits.foldl edit a

/-- No group is listed twice, and the listed ones are those of the curves. -/
structure GroupsExact (a : Action) : Prop where
  nodup : a.groups.Nodup
  mem_iff : ∀ g, g ∈ a.groups ↔ ∃ c ∈ a.curves, c.group = some g

theorem groupsExact_empty (root : Option ObjectKind) (keep : Bool) :
    GroupsExact { root := root, keep := keep } where
  nodup := List.nodup_nil
  mem_iff g := by simp

theorem mem_addGroup {groups : List String} {group : Option String} :
    g ∈ addGroup groups group ↔ g ∈ groups ∨ group = some g := by
  cases group with
  | none => simp [addGroup]
  | some new =>
    by_cases h : new ∈ groups
    · rw [addGroup, if_pos h, or_iff_left_of_imp]
      intro heq
      exact Option.some.inj heq ▸ h
    · simp [addGroup, h, eq_comm]

theorem nodup_addGroup {groups : List String} (h : groups.Nodup) (group : Option String) :
    (addGroup groups group).Nodup := by
  cases group with
  | none => exact h
  | some new =>
    by_cases hmem : new ∈ groups
    · rwa [addGroup, if_pos hmem]
    · rw [addGroup, if_neg hmem, ← List.concat_eq_append]
      exact h.concat hmem

theorem GroupsExact.addCurve (h : a.GroupsExact) (c : Curve) : (a.addCurve c).GroupsExact where
  nodup := nodup_addGroup h.nodup c.group
  mem_iff g := by
    show g ∈ addGroup a.groups c.group ↔ ∃ d ∈ a.curves ++ [c], d.group = some g
    rw [mem_addGroup, h.mem_iff g]
    simp [or_and_right, exists_or]

theorem mem_curves_withoutFlat : c ∈ a.withoutFlat.curves ↔ c ∈ a.curves ∧ c.isFlat = false := by
  simp [withoutFlat]

theorem groups_withoutFlat (a : Action) :
    a.withoutFlat.groups =
      a.groups.filter fun g => a.withoutFlat.curves.any fun c => c.group == some g :=
  rfl

theorem mem_groups_withoutFlat :
    g ∈ a.withoutFlat.groups ↔ g ∈ a.groups ∧ ∃ c ∈ a.withoutFlat.curves, c.group = some g := by
  rw [groups_withoutFlat, List.mem_filter]
  simp

theorem GroupsExact.withoutFlat (h : a.GroupsExact) : a.withoutFlat.GroupsExact where
  nodup := h.nodup.filter _
  mem_iff g := by
    rw [mem_groups_withoutFlat, h.mem_iff g, and_iff_right_of_imp]
    rintro ⟨c, hc, hgroup⟩
    exact ⟨c, (mem_curves_withoutFlat.mp hc).1, hgroup⟩

theorem flatCount_eq (a : Action) : a.flatCount = a.curves.countP Curve.isFlat := by
  have hlen := List.length_eq_length_filter_add (l := a.curves) Curve.isFlat
  rw [flatCount, List.countP_eq_length_filter, hlen]
  exact Nat.add_sub_cancel _ _

theorem flatCount_add (a : Action) : a.flatCount + a.withoutFlat.curves.length = a.curves.length :=
  Nat.sub_add_cancel (List.length_filter_le _ a.curves)

theorem flatCount_withoutFlat (a : Action) : a.withoutFlat.flatCount = 0 := by
  rw [flatCount_eq, List.countP_eq_zero]
  intro c hc
  simp [(mem_curves_withoutFlat.mp hc).2]

theorem withoutFlat_withoutFlat (a : Action) : a.withoutFlat.withoutFlat = a.withoutFlat := by
  have hcurves : a.withoutFlat.withoutFlat.curves = a.withoutFlat.curves :=
    List.filter_eq_self.mpr fun c hc => by simp [(mem_curves_withoutFlat.mp hc).2]
  have hgroups : a.withoutFlat.withoutFlat.groups = a.withoutFlat.groups := by
    rw [groups_withoutFlat, hcurves]
    exact List.filter_eq_self.mpr fun g hg => (List.mem_filter.mp hg).2
  show ({ a with curves := a.withoutFlat.withoutFlat.curves
                 groups := a.withoutFlat.withoutFlat.groups } : Action) = a.withoutFlat
  rw [hcurves, hgroups]
  rfl

theorem GroupsExact.edit (h : a.GroupsExact) (e : CurveEdit) : (a.edit e).GroupsExact := by
  cases e with
  | add c => exact h.addCurve c
  | dropFlat => exact h.withoutFlat

theorem GroupsExact.editAll (h : a.GroupsExact) (edits : List CurveEdit) :
    (a.editAll edits).GroupsExact := by
  induction edits generalizing a with
  | nil => exact h
  | cons e r ih => exact ih (h.edit e)

/-- Whatever curves are added to an action without curves, and whenever the flat ones are left
out, each group of a remaining curve is listed once and no other group is. Leaving out the flat
curves then keeps the order of the groups that stay, reports how many curves it drops, and a
second time drops nothing. -/
theorem groups_editAll (root : Option ObjectKind) (keep : Bool) (edits : List CurveEdit) :
    let a := ({ root := root, keep := keep } : Action).editAll edits
    a.groups.Nodup ∧
      (∀ g, g ∈ a.groups ↔ ∃ c ∈ a.curves, c.group = some g) ∧
      a.withoutFlat.groups.Sublist a.groups ∧
      a.flatCount = a.curves.countP Curve.isFlat ∧
      a.flatCount + a.withoutFlat.curves.length = a.curves.length ∧
      a.withoutFlat.flatCount = 0 ∧
      a.withoutFlat.withoutFlat = a.withoutFlat := by
  intro a
  have hexact : a.GroupsExact := (groupsExact_empty root keep).editAll edits
  have horder : a.withoutFlat.groups.Sublist a.groups := List.filter_sublist
  exact ⟨hexact.nodup, hexact.mem_iff, horder, flatCount_eq a, flatCount_add a,
    flatCount_withoutFlat a, withoutFlat_withoutFlat a⟩

example :
    (({} : Action).editAll
      [.add { group := some "Lip" }, .add { group := some "Jaw", keyframes := [⟨0, 0⟩, ⟨10, 1⟩] },
        .add { group := some "Lip", keyframes := [⟨0, 0⟩, ⟨10, 0.2⟩] },
        .add { group := some "Brow" }, .dropFlat]).groups = ["Lip", "Jaw"] := by
  decide

end Action

end PoseRig
