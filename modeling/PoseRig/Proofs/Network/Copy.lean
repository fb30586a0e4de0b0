import PoseRig.Proofs.Network.Agreement
import PoseRig.Proofs.Pose.Arrangement

/-!
# What copied poses are driven by

A copy refers to its parts by the names that the pose it was made from refers to, whatever names the
copies of those parts were given. So it is driven as that pose is as long as the names below it
stay: the poses that are referred to keep theirs in the copy, and a name that no pose had is still
free. Otherwise a reference comes to mean another pose, one of the target or another copy.
-/

set_option autoImplicit false

namespace PoseRig

/-- An input without the name of the pose that it came from. -/
def Input.unlabelled (i : Input) : Input := { i with pose := "" }

theorem Pose.input?_unnamed (p : Pose) : p.unnamed.input? = p.input?.map Input.unlabelled := by
  unfold Pose.input?
  rw [show p.unnamed.usableTarget? = p.usableTarget? from rfl,
    show p.unnamed.inputSource? = p.inputSource? from rfl]
  cases p.usableTarget? <;> cases p.inputSource? <;> rfl

theorem Network.map_named {f : Input → Input} {inputs inputs' : List Input}
    (h : inputs'.map f = inputs.map f) (start : Nat) :
    (named start inputs').map (fun v => (v.1, f v.2)) =
      (named start inputs).map fun v => (v.1, f v.2) := by
  induction inputs generalizing inputs' start with
  | nil => rw [List.map_eq_nil_iff.mp h]
  | cons i r ih =>
    obtain ⟨i', r', rfl, hi, hr⟩ := List.map_eq_cons_iff.mp h
    simp only [named, List.map_cons, hi, ih hr (start + 1)]

namespace Library

open Relation (ReflTransGen)

variable {l source target : Library} {p p' : Pose} {t : Unfolding} {name : String} {ps : List Pose}

theorem Unfolds.rename (h : l.Unfolds (some p) t) (hunnamed : p'.unnamed = p.unnamed) :
    ∃ t', l.Unfolds (some p') t' ∧
      t'.inputs.map Input.unlabelled = t.inputs.map Input.unlabelled := by
  have hkind : p'.unnamed.kind = p.unnamed.kind := by rw [hunnamed]
  have hpartA : p'.unnamed.partA = p.unnamed.partA := by rw [hunnamed]
  have hpartB : p'.unnamed.partB = p.unnamed.partB := by rw [hunnamed]
  have hinput : p'.input?.map Input.unlabelled = p.input?.map Input.unlabelled := by
    rw [← Pose.input?_unnamed, hunnamed, Pose.input?_unnamed]
  cases h with
  | leaf hk =>
    refine ⟨.leaf p', .leaf (hkind.trans hk), ?_⟩
    have hleaf : ∀ q : Pose, (Unfolding.leaf q).inputs.map Input.unlabelled =
        (q.input?.map Input.unlabelled).toList := by
      intro q
      cases hq : q.input? <;> simp [Unfolding.inputs, Unfolding.leaves, hq]
    rw [hleaf, hleaf, hinput]
  | combo hk ha hb =>
    refine ⟨_, .combo (hkind.trans hk) ?_ ?_, rfl⟩
    · exact (congrArg l.part? hpartA).symm ▸ ha
    · exact (congrArg l.part? hpartB).symm ▸ hb

theorem inputs_ok_iff (hnames : l.names.Nodup) (hp : p ∈ l.poses) :
    (∃ inputs, l.inputs p = .ok inputs) ↔ ∃ t, l.Unfolds (some p) t := by
  constructor
  · rintro ⟨inputs, h⟩
    obtain ⟨t, ht, -⟩ := unfolds_of_inputs h
    exact ⟨t, ht⟩
  · rintro ⟨t, ht⟩
    exact ⟨_, inputs_of_unfolds hnames hp ht⟩

theorem poses_foldl_push_of_free (h : (l.names ++ ps.map (·.name)).Nodup) :
    (ps.foldl push l).poses = l.poses ++ ps := by
  induction ps generalizing l with
  | nil => exact (List.append_nil _).symm
  | cons p r ih =>
    have hfree : p.name ∉ l.names := fun hmem =>
      List.disjoint_of_nodup_append h hmem List.mem_cons_self
    have hpush : (l.push p).poses = l.poses ++ [p] := by
      rw [push, freshName, Naming.fresh_of_not_mem hfree]
    rw [List.foldl_cons, ih (by simpa [names, hpush] using h), hpush, List.append_assoc]
    rfl

def KeepsName (source target : Library) (name : String) : Prop :=
  ∃ i p, source.poses[i]? = some p ∧ p.name = name ∧
    (source.copyTo target .all).poses[target.size + i]? = some p

/-- What the combos below a pose refer to keeps its name in the copy, and where they refer to
nothing there is no pose of that name after copying either. -/
def KeepsReferences (source target : Library) (p : Pose) : Prop :=
  ∀ q, ReflTransGen source.Refers p q → q.kind = .combo → ∀ part, part = q.partA ∨ part = q.partB →
    part ≠ "" → source.KeepsName target part ∨
      part ∉ source.names ∧ part ∉ (source.copyTo target .all).names

theorem find?_eq_none_of_not_mem (h : name ∉ l.names) : l.find? name = none := by
  apply List.find?_eq_none.mpr
  intro p hp hname
  exact h (List.mem_map.mpr ⟨p, hp, eq_of_beq hname⟩)

theorem KeepsReferences.agreeBelow (h : source.KeepsReferences target p)
    (hsource : source.names.Nodup) (hcopied : (source.copyTo target .all).names.Nodup) :
    AgreeBelow source (source.copyTo target .all) (some p) := by
  intro p' hp' q hq hk
  obtain rfl := Option.some.inj hp'
  have hpart : ∀ part, part = q.partA ∨ part = q.partB →
      (source.copyTo target .all).part? part = source.part? part := by
    intro part hpart
    by_cases hempty : part = ""
    · rw [Library.part?, Library.part?, if_pos hempty, if_pos hempty]
    · rw [Library.part?, Library.part?, if_neg hempty, if_neg hempty]
      rcases h q hq hk part hpart hempty with ⟨i, r, hr, rfl, hcopy⟩ | ⟨hmissing, hfree⟩
      · rw [find?_of_mem hsource (List.mem_of_getElem? hr),
          find?_of_mem hcopied (List.mem_of_getElem? hcopy)]
      · rw [find?_eq_none_of_not_mem hmissing, find?_eq_none_of_not_mem hfree]
  exact ⟨hpart _ (Or.inl rfl), hpart _ (Or.inr rfl)⟩

/-- Copying a library adds a copy of each of its poses in order, alike but for the name, and with
the name too where the libraries share none. If the references below a pose are kept, its copy
has inputs exactly when it has, and then the same variables, in order, up to the poses that they
are labelled with. -/
theorem copyTo_keeps_inputs (source target : Library) (hsource : source.names.Nodup)
    (htarget : target.names.Nodup) :
    ∃ copies, (source.copyTo target .all).poses = target.poses ++ copies ∧
      copies.map Pose.unnamed = source.poses.map Pose.unnamed ∧
      (source.names.Disjoint target.names → copies = source.poses) ∧
      ∀ (i : Nat) p p', source.poses[i]? = some p → copies[i]? = some p' →
        source.KeepsReferences target p →
          ((∃ inputs, (source.copyTo target .all).inputs p' = .ok inputs) ↔
            ∃ inputs, source.inputs p = .ok inputs) ∧
          ∀ inputs inputs', source.inputs p = .ok inputs →
            (source.copyTo target .all).inputs p' = .ok inputs' →
              (Network.named 0 inputs').map (fun v => (v.1, v.2.unlabelled)) =
                (Network.named 0 inputs).map fun v => (v.1, v.2.unlabelled) := by
  obtain ⟨copies, hunnamed, hposes⟩ := poses_foldl_push target source.poses
  have hcopied : (source.copyTo target .all).names.Nodup :=
    nodup_names_foldl_push htarget source.poses
  refine ⟨copies, hposes, hunnamed, ?_, ?_⟩
  · intro hdisjoint
    have hnames : (target.names ++ source.poses.map (·.name)).Nodup :=
      htarget.append hsource hdisjoint.symm
    have hfree := poses_foldl_push_of_free hnames
    exact List.append_cancel_left (hposes.symm.trans hfree)
  · intro i p p' hp hp' hkeeps
    have hmem : p ∈ source.poses := List.mem_of_getElem? hp
    have hmem' : p' ∈ (source.copyTo target .all).poses := by
      rw [show (source.copyTo target .all).poses = target.poses ++ copies from hposes]
      exact List.mem_append_right _ (List.mem_of_getElem? hp')
    have halike : p'.unnamed = p.unnamed := by
      have h := congrArg (·[i]?) hunnamed
      simpa [hp, hp'] using h
    have hbelow := hkeeps.agreeBelow hsource hcopied
    constructor
    · rw [inputs_ok_iff hcopied hmem', inputs_ok_iff hsource hmem]
      constructor
      · rintro ⟨t', ht'⟩
        obtain ⟨t, ht, -⟩ := ht'.rename halike.symm
        exact ⟨t, hbelow.unfolds_of ht⟩
      · rintro ⟨t, ht⟩
        obtain ⟨t', ht', -⟩ := (hbelow.unfolds ht).rename halike
        exact ⟨t', ht'⟩
    · intro inputs inputs' hinputs hinputs'
      obtain ⟨t, ht, rfl⟩ := unfolds_of_inputs hinputs
      obtain ⟨t', ht', hlabels⟩ := (hbelow.unfolds ht).rename halike
      obtain rfl := Except.ok.inj ((inputs_of_unfolds hcopied hmem' ht').symm.trans hinputs')
      exact Network.map_named hlabels 0

def lipPose : Pose := .ofChannel "Smile" "Face" "Lip" ⟨.location, .y⟩

def smileLibrary : Library where
  poses := [lipPose, .ofParts "Both" "Smile" "Gone"]

theorem unfolds_both :
    smileLibrary.Unfolds (some (.ofParts "Both" "Smile" "Gone"))
      (.combo (.ofParts "Both" "Smile" "Gone") (.leaf lipPose) .missing) :=
  .combo rfl (.leaf rfl) .missing

theorem copyTo_keeps_inputs_both :
    smileLibrary.names.Nodup ∧ ({ poses := [.ofName "Both"] } : Library).names.Nodup ∧
    smileLibrary.KeepsReferences { poses := [.ofName "Both"] } (.ofParts "Both" "Smile" "Gone") ∧
    ∃ copy inputs, copy.name = "Both.001" ∧
      copy ∈ (smileLibrary.copyTo { poses := [.ofName "Both"] } .all).poses ∧
      (smileLibrary.copyTo { poses := [.ofName "Both"] } .all).inputs copy = .ok inputs := by
  have hsource : smileLibrary.names.Nodup := by decide
  have htarget : ({ poses := [.ofName "Both"] } : Library).names.Nodup := by decide
  have hkeeps : smileLibrary.KeepsReferences { poses := [.ofName "Both"] }
      (.ofParts "Both" "Smile" "Gone") := by
    intro q hq hk part hpart _
    rcases ReflTransGen.cases_head hq with rfl | ⟨r, hr, hrq⟩
    · rcases hpart with rfl | rfl
      · exact Or.inl ⟨0, lipPose, rfl, rfl, rfl⟩
      · exact Or.inr (by decide)
    · obtain ⟨-, hr | hr⟩ := refers_iff.mp hr
      · obtain rfl : lipPose = r := Option.some.inj hr
        obtain rfl := eq_of_reaches_simple rfl hrq
        cases hk
      · cases hr
  obtain ⟨copies, hposes, -, -, hcopies⟩ :=
    copyTo_keeps_inputs smileLibrary { poses := [.ofName "Both"] } hsource htarget
  have hcopied : (smileLibrary.copyTo { poses := [.ofName "Both"] } .all).poses =
      [.ofName "Both"] ++ [lipPose, .ofParts "Both.001" "Smile" "Gone"] := rfl
  obtain rfl := List.append_cancel_left (hcopied.symm.trans hposes)
  obtain ⟨hok, -⟩ :=
    hcopies 1 (.ofParts "Both" "Smile" "Gone") (.ofParts "Both.001" "Smile" "Gone") rfl
    rfl hkeeps
  obtain ⟨inputs, hinputs⟩ :=
    hok.mpr ⟨_, inputs_of_unfolds hsource (by simp [smileLibrary]) unfolds_both⟩
  exact ⟨hsource, htarget, hkeeps, _, inputs, rfl, by rw [hcopied]; simp, hinputs⟩

def frownLibrary : Library where
  poses := [.ofChannel "Smile" "Face" "Chin" ⟨.location, .y⟩]

theorem copyTo_captures_both :
    smileLibrary.names.Nodup ∧ frownLibrary.names.Nodup ∧
    ∃ p p' inputs inputs', smileLibrary.poses[1]? = some p ∧
      (smileLibrary.copyTo frownLibrary .all).poses[frownLibrary.size + 1]? = some p' ∧
      smileLibrary.inputs p = .ok inputs ∧
      (smileLibrary.copyTo frownLibrary .all).inputs p' = .ok inputs' ∧
      inputs'.map Input.source ≠ inputs.map Input.source := by
  have hsource : smileLibrary.names.Nodup := by decide
  have hcopied : (smileLibrary.copyTo frownLibrary .all).names.Nodup := by decide
  have hcaptured : (smileLibrary.copyTo frownLibrary .all).Unfolds
      (some (.ofParts "Both" "Smile" "Gone"))
      (.combo (.ofParts "Both" "Smile" "Gone")
        (.leaf (.ofChannel "Smile" "Face" "Chin" ⟨.location, .y⟩)) .missing) :=
    .combo rfl (.leaf rfl) .missing
  refine ⟨hsource, by decide, .ofParts "Both" "Smile" "Gone",
    .ofParts "Both" "Smile" "Gone", _, _, rfl, rfl,
    inputs_of_unfolds hsource (by simp [smileLibrary]) unfolds_both,
      inputs_of_unfolds hcopied ?_ hcaptured, by decide⟩
  exact List.mem_of_getElem? (i := 2) rfl

end Library

end PoseRig
