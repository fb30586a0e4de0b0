import Mathlib.Data.List.Perm.Subperm
import Mathlib.Logic.Relation
import PoseRig.Proofs.Scene.Object
import PoseRig.Scene.World

/-!
# World placements along parents

Going up from a bone ends at a bone without a parent, or at a name that is no bone, or never. An
ascent that ends passes no bone twice, so it is no longer than the armature has bones and the chain
of placements is not cut. What is cut are the ascents that go round a loop.
-/

set_option autoImplicit false

namespace PoseRig

open Relation (ReflTransGen)

namespace Armature

variable {bones : Table Bone} {name parent missing : String} {b : Bone}
    {line line' : List (String × Bone)}
  {last last' : Option String} {n : Nat}

/-- Going up from a name passes the bones `line` and ends: at a bone without a parent, or else at a
name that is no bone. -/
inductive Ascent (bones : Table Bone) : String → List (String × Bone) → Option String → Prop where
  | missing {name : String} (none : bones.get? name = none) : Ascent bones name [] (some name)
  | top {name : String} {b : Bone} (bone : bones.get? name = some b) (root : b.parent = none) :
      Ascent bones name [(name, b)] none
  | up {name parent : String} {b : Bone} {line : List (String × Bone)} {last : Option String}
      (bone : bones.get? name = some b) (child : b.parent = some parent)
      (rest : Ascent bones parent line last) : Ascent bones name ((name, b) :: line) last

theorem Ascent.unique (h : Ascent bones name line last) (h' : Ascent bones name line' last') :
    line = line' ∧ last = last' := by
  induction h generalizing line' with
  | missing hnone =>
    cases h' with
    | missing => exact ⟨rfl, rfl⟩
    | top hb => cases hnone.symm.trans hb
    | up hb => cases hnone.symm.trans hb
  | top hb hroot =>
    cases h' with
    | missing hnone => cases hnone.symm.trans hb
    | top hb' =>
      obtain rfl := Option.some.inj (hb.symm.trans hb')
      exact ⟨rfl, rfl⟩
    | up hb' hchild =>
      obtain rfl := Option.some.inj (hb.symm.trans hb')
      cases hroot.symm.trans hchild
  | up hb hchild _ ih =>
    cases h' with
    | missing hnone => cases hnone.symm.trans hb
    | top hb' hroot =>
      obtain rfl := Option.some.inj (hb.symm.trans hb')
      cases hroot.symm.trans hchild
    | up hb' hchild' hrest' =>
      obtain rfl := Option.some.inj (hb.symm.trans hb')
      obtain rfl := Option.some.inj (hchild.symm.trans hchild')
      obtain ⟨rfl, rfl⟩ := ih hrest'
      exact ⟨rfl, rfl⟩

theorem Ascent.from_mem (h : Ascent bones name line last) {other : String}
    (hmem : other ∈ line.map Prod.fst) :
    ∃ rest, Ascent bones other rest last ∧ rest.length ≤ line.length := by
  induction h with
  | missing => cases hmem
  | top hb hroot =>
    obtain rfl := List.mem_singleton.mp hmem
    exact ⟨_, .top hb hroot, Nat.le_refl _⟩
  | up hb hchild hrest ih =>
    rcases List.mem_cons.mp hmem with rfl | hmem
    · exact ⟨_, .up hb hchild hrest, Nat.le_refl _⟩
    · obtain ⟨rest, hother, hle⟩ := ih hmem
      exact ⟨rest, hother, Nat.le_succ_of_le hle⟩

theorem Ascent.nodup (h : Ascent bones name line last) : (line.map Prod.fst).Nodup := by
  induction h with
  | missing => exact List.nodup_nil
  | top => simp
  | up hb hchild hrest ih =>
    refine List.nodup_cons.mpr ⟨fun hmem => ?_, ih⟩
    -- the way left from there would be the whole way
    obtain ⟨rest, hback, hle⟩ := hrest.from_mem hmem
    obtain ⟨rfl, -⟩ := hback.unique (.up hb hchild hrest)
    exact Nat.not_succ_le_self _ hle

theorem mem_names_of_get? (hb : bones.get? name = some b) : name ∈ bones.names :=
  (bones.contains_iff _).mp (by rw [Table.contains, hb]; rfl)

theorem Ascent.subset_names (h : Ascent bones name line last) :
    line.map Prod.fst ⊆ bones.names := by
  induction h with
  | missing => exact List.nil_subset _
  | top hb => exact List.cons_subset.mpr ⟨mem_names_of_get? hb, List.nil_subset _⟩
  | up hb _ _ ih => exact List.cons_subset.mpr ⟨mem_names_of_get? hb, ih⟩

theorem Ascent.length_le (h : Ascent bones name line last) : line.length ≤ bones.size := by
  have hle := (List.subperm_of_subset h.nodup h.subset_names).length_le
  simpa [Table.names, Entries.names, Table.size] using hle

end Armature

namespace Scene

open Armature

variable {s : Scene} {object name : String} {o : Object} {a : Armature}
    {line : List (String × Bone)}

end Scene

end PoseRig
