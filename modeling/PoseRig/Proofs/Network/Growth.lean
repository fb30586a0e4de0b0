import PoseRig.Proofs.Network.Agreement
import PoseRig.Proofs.Pose.Arrangement

/-!
# A library that grows

A pose that comes in takes a name that is free, so a name that had a pose keeps it, however poses
are put in and moved. A reference that meant a pose goes on to mean it. So where no part is left
dangling the poses that were there are driven as before; a dangling part can be caught by a pose
that comes in under its name.
-/

set_option autoImplicit false

namespace PoseRig.Library

open Relation (ReflTransGen)

variable {l l' : Library} {p q : Pose} {o : Option Pose} {part name : String} {steps : List Step}

/-- The parts of a pose that are not empty name poses of the library. -/
def PartsResolve (l : Library) (p : Pose) : Prop :=
  ∀ part ∈ [p.partA, p.partB], part ≠ "" → (l.find? part).isSome

instance (l : Library) (p : Pose) : Decidable (l.PartsResolve p) :=
  inferInstanceAs (Decidable (∀ part ∈ [p.partA, p.partB], part ≠ "" → (l.find? part).isSome))

/-- The poses of `l` are in `l'` too, where no two poses share a name. -/
structure Grows (l l' : Library) : Prop where
  names : l'.names.Nodup
  poses : l.poses ⊆ l'.poses

theorem Grows.find? (h : l.Grows l') (hq : l.find? name = some q) : l'.find? name = some q := by
  obtain ⟨hmem, rfl⟩ := mem_of_find? hq
  exact find?_of_mem h.names (h.poses hmem)

theorem Grows.part? (h : l.Grows l') (hp : l.PartsResolve p) (hpart : part ∈ [p.partA, p.partB]) :
    l'.part? part = l.part? part := by
  unfold Library.part?
  split
  · rfl
  · rename_i hne
    obtain ⟨q, hq⟩ := Option.isSome_iff_exists.mp (hp part hpart hne)
    rw [hq, h.find? hq]

theorem mem_of_reaches (hp : p ∈ l.poses) (h : ReflTransGen l.Refers p q) : q ∈ l.poses := by
  rcases Relation.reflTransGen_iff_eq_or_transGen.mp h with rfl | h
  · exact hp
  · exact mem_of_transGen h

section

variable (hrefs : ∀ p ∈ l.poses, p.kind = .combo → l.PartsResolve p)

include hrefs

theorem Grows.agreeBelow (h : l.Grows l') (ho : ∀ p ∈ o, p ∈ l.poses) : AgreeBelow l l' o := by
  intro p hp q hq hk
  have hparts := hrefs q (mem_of_reaches (ho p hp) hq) hk
  exact ⟨h.part? hparts (by simp), h.part? hparts (by simp)⟩

theorem Grows.agreeAt (h : l.Grows l') (hp : l.PartsResolve p) (hpart : part ∈ [p.partA, p.partB]) :
    AgreeAt l l' part :=
  ⟨h.part? hp hpart, h.agreeBelow hrefs fun _ hq => mem_of_part? hq⟩

end

theorem grows_run (h : l.names.Nodup) (hsteps : ∀ c ∈ steps, c.Keeps) : l.Grows (l.run steps) := by
  induction steps generalizing l with
  | nil => exact ⟨h, List.Subset.refl _⟩
  | cons c r ih =>
    obtain ⟨hc, hr⟩ := List.forall_mem_cons.mp hsteps
    have hrest : (l.step c).Grows ((l.step c).run r) := ih (nodup_names_step h c) hr
    have hstep : l.poses ⊆ (l.step c).poses := (effect_step l c).subset hc
    exact ⟨hrest.names, fun p hp => hrest.poses (hstep hp)⟩

/-- Where names are distinct and the parts of combos are empty or name poses, putting poses in,
copying, duplicating and mirroring them and moving the selected one leave every pose that was there
in the library, found under its name and driven as before, by the same inputs or not at all for the
same cycle. The poses nested in it are the same too, or the cycle met in looking for them; for a
simple pose, which can carry parts that it does not use, this takes that they name poses as well. -/
theorem run_keeps_driving (l : Library) (hnames : l.names.Nodup)
    (hrefs : ∀ p ∈ l.poses, p.kind = .combo → l.PartsResolve p) (steps : List Step)
    (hsteps : ∀ c ∈ steps, c.Keeps) :
    ∀ p ∈ l.poses, p ∈ (l.run steps).poses ∧ (l.run steps).find? p.name = some p ∧
      (l.run steps).inputs p = l.inputs p ∧
      (l.PartsResolve p → (l.run steps).nested p = l.nested p) := by
  intro p hp
  have hgrows := grows_run hnames hsteps
  have hbelow : AgreeBelow l (l.run steps) (some p) :=
    hgrows.agreeBelow hrefs fun q hq => Option.some.inj hq ▸ hp
  refine ⟨hgrows.poses hp, find?_of_mem hgrows.names (hgrows.poses hp), hbelow.inputs,
    fun hparts => ?_⟩
  exact nested_congr (hgrows.agreeAt hrefs hparts (by simp)) (hgrows.agreeAt hrefs hparts (by simp))

def crowding : List Step :=
  [.push { inPose with name := "Up" }, .move .top, .duplicate 4,
    .addOpposite {} "Rig" {} 2, .move .up, .copyFrom browLibrary .all]

theorem run_keeps_driving_brow :
    (browLibrary.names.Nodup ∧
      (∀ p ∈ browLibrary.poses, p.kind = .combo → browLibrary.PartsResolve p) ∧
      ∀ c ∈ crowding, c.Keeps) ∧
    (browLibrary.run crowding).names.take 4 = ["Up.001", "Up", "In.001", "In"] ∧
    (browLibrary.run crowding).nested (.ofParts "Frown" "Worry" "Up") = .ok [upPose, inPose] ∧
    (browLibrary.run crowding).inputs (.ofParts "Left" "Up" "Right") =
      .error (.comboCycle ["Left", "Right", "Left"]) := by
  have hnames : browLibrary.names.Nodup := by decide
  have hrefs : ∀ p ∈ browLibrary.poses, p.kind = .combo → browLibrary.PartsResolve p := by decide
  have hsteps : ∀ c ∈ crowding, c.Keeps := by simp [crowding, Step.Keeps]
  have hdriving := run_keeps_driving browLibrary hnames hrefs crowding hsteps
  obtain ⟨-, -, -, hfrown⟩ := hdriving (.ofParts "Frown" "Worry" "Up") (by simp [browLibrary])
  obtain ⟨-, -, hleft, -⟩ := hdriving (.ofParts "Left" "Up" "Right") (by simp [browLibrary])
  refine ⟨⟨hnames, hrefs, hsteps⟩, by decide +kernel, ?_, ?_⟩
  · rw [hfrown (by decide)]
    cbv
  · rw [hleft]
    cbv

end PoseRig.Library
