import PoseRig.Edit.Nested
import PoseRig.Proofs.Network.Unfolding

/-!
# Libraries in which references mean the same

What a pose is driven by depends on a library only through the poses that the parts of the combos
below it name. Where two libraries agree on those, the trees, the inputs and the nested poses are
the same, and so are the cycles that are reported.
-/

set_option autoImplicit false

namespace PoseRig.Library

open Relation (ReflTransGen)

variable {l l' : Library} {p q : Pose} {o : Option Pose} {t : Unfolding} {part : String}
  {level next : List (String × List String)}

/-- The parts of every combo that can be reached mean the same in both libraries. -/
def AgreeBelow (l l' : Library) (o : Option Pose) : Prop :=
  ∀ p ∈ o, ∀ q, ReflTransGen l.Refers p q → q.kind = .combo →
    l'.part? q.partA = l.part? q.partA ∧ l'.part? q.partB = l.part? q.partB

/-- A part names the same pose in both libraries, and so does every part below it. -/
structure AgreeAt (l l' : Library) (part : String) : Prop where
  same : l'.part? part = l.part? part
  below : AgreeBelow l l' (l.part? part)

theorem AgreeBelow.refers (h : AgreeBelow l l' (some p)) (hr : l.Refers p q) :
    AgreeBelow l l' (some q) := by
  intro r hr' s hs
  obtain rfl := Option.some.inj hr'
  exact h p rfl s (.head hr hs)

theorem AgreeBelow.parts (h : AgreeBelow l l' (some p)) (hk : p.kind = .combo) :
    AgreeAt l l' p.partA ∧ AgreeAt l l' p.partB := by
  obtain ⟨ha, hb⟩ := h p rfl p .refl hk
  constructor
  · exact ⟨ha, fun q hq => h.refers (refers_iff.mpr ⟨hk, Or.inl hq⟩) q rfl⟩
  · exact ⟨hb, fun q hq => h.refers (refers_iff.mpr ⟨hk, Or.inr hq⟩) q rfl⟩

theorem AgreeAt.parts (h : AgreeAt l l' part) (hp : l.part? part = some p) (hk : p.kind = .combo) :
    AgreeAt l l' p.partA ∧ AgreeAt l l' p.partB :=
  AgreeBelow.parts (hp ▸ h.below) hk

theorem AgreeBelow.unfolds (h : AgreeBelow l l' o) (ht : l.Unfolds o t) : l'.Unfolds o t := by
  induction ht with
  | missing => exact .missing
  | leaf hk => exact .leaf hk
  | combo hk _ _ iha ihb =>
    obtain ⟨ha, hb⟩ := h.parts hk
    exact .combo hk (ha.same ▸ iha ha.below) (hb.same ▸ ihb hb.below)

theorem AgreeBelow.unfolds_of (h : AgreeBelow l l' o) (ht : l'.Unfolds o t) : l.Unfolds o t := by
  induction ht with
  | missing => exact .missing
  | leaf hk => exact .leaf hk
  | combo hk _ _ iha ihb =>
    obtain ⟨ha, hb⟩ := h.parts hk
    rw [ha.same] at iha
    rw [hb.same] at ihb
    exact .combo hk (iha ha.below) (ihb hb.below)

theorem AgreeAt.partInputs (h : AgreeAt l l' part) (path : List String) :
    l'.partInputs path part = l.partInputs path part := by
  fun_induction l.partInputs path part with
  | case1 path part hp => rw [partInputs_eq, h.same, hp]
  | case2 path part p hp hk =>
    rw [partInputs_eq, h.same, hp]
    simp only [hk]
  | case3 path part p hp hk hn =>
    rw [partInputs_eq, h.same, hp]
    simp only [hk, if_pos hn]
  | case4 path part p hp hk hn ih₁ ih₂ =>
    obtain ⟨ha, hb⟩ := h.parts hp hk
    rw [partInputs_eq, h.same, hp]
    simp only [hk, if_neg hn, ih₁ ha, ih₂ hb]

theorem AgreeBelow.inputs (h : AgreeBelow l l' (some p)) : l'.inputs p = l.inputs p := by
  unfold Library.inputs
  cases hk : p.kind with
  | simple => rfl
  | combo =>
    obtain ⟨ha, hb⟩ := h.parts hk
    rw [ha.partInputs, hb.partInputs]

theorem nestedFrom_congr {found : List Pose} (hlevel : ∀ g ∈ level, AgreeAt l l' g.1)
    (hnext : ∀ g ∈ next, AgreeAt l l' g.1) :
    l'.nestedFrom level next found = l.nestedFrom level next found := by
  fun_induction l.nestedFrom level next found with
  | case1 found => rw [nestedFrom]
  | case2 found g next ih =>
    rw [List.unattach_reverse, List.unattach_attach] at ih
    rw [nestedFrom]
    exact ih (fun d hd => hnext d (List.mem_reverse.mp hd)) (fun _ hd => absurd hd List.not_mem_nil)
  | case3 next found part ancestors rest hpart => rw [nestedFrom, dif_pos hpart]
  | case4 next found part ancestors rest hpart hnone ih =>
    obtain ⟨hat, hrest⟩ := List.forall_mem_cons.mp hlevel
    rw [nestedFrom_cons hpart, hat.same, hnone]
    exact ih hrest hnext
  | case5 next found part ancestors rest hpart p hp hk ih =>
    obtain ⟨hat, hrest⟩ := List.forall_mem_cons.mp hlevel
    rw [nestedFrom_cons hpart, hat.same, hp]
    simp only [hk]
    exact ih hrest hnext
  | case6 next found part ancestors rest hpart p hp hk path ih =>
    obtain ⟨hat, hrest⟩ := List.forall_mem_cons.mp hlevel
    obtain ⟨ha, hb⟩ := hat.parts hp hk
    rw [nestedFrom_cons hpart, hat.same, hp]
    simp only [hk]
    refine ih hrest ?_
    simp only [List.forall_mem_cons]
    exact ⟨hb, ha, hnext⟩

theorem nested_congr (ha : AgreeAt l l' p.partA) (hb : AgreeAt l l' p.partB) :
    l'.nested p = l.nested p := by
  unfold nested
  apply nestedFrom_congr
  · simp only [List.forall_mem_cons]
    exact ⟨ha, hb, fun _ hd => absurd hd List.not_mem_nil⟩
  · exact fun _ hd => absurd hd List.not_mem_nil

end PoseRig.Library
