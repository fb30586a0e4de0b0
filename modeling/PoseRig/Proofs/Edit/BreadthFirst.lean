import PoseRig.Proofs.Edit.Nested

/-!
# Nested poses in breadth-first order

The search for nested poses works off the parts of all the combos that the same number of references
leads to, and the parts of the next ones wait. So a simple pose is added with its distance from the
combo, no pose is passed over, and the distances come in order.
-/

set_option autoImplicit false

namespace PoseRig.Library

open Relation (ReflTransGen TransGen)

variable {l : Library} {p q r : Pose} {k m n : Nat} {part : String} {ancestors : List String}
  {level rest next next' : List (String × List String)} {found found' poses : List Pose}

inductive Steps (l : Library) (p : Pose) : Nat → Pose → Prop where
  | start : Steps l p 0 p
  | step {n : Nat} {q r : Pose} (h : Steps l p n q) (hr : l.Refers q r) : Steps l p (n + 1) r

/-- The least number of references that lead from `p` to `q`. -/
def Distance (l : Library) (p q : Pose) (n : Nat) : Prop :=
  l.Steps p n q ∧ ∀ m < n, ¬l.Steps p m q

/-- A part of a combo to which so many references lead. -/
def PartAt (l : Library) (p : Pose) (n : Nat) (part : String) : Prop :=
  ∃ c, l.Steps p n c ∧ c.kind = .combo ∧ (part = c.partA ∨ part = c.partB)

theorem steps_succ_iff :
    l.Steps p (n + 1) q ↔ ∃ part, l.PartAt p n part ∧ l.part? part = some q := by
  constructor
  · intro h
    cases h with
    | @step _ c _ hc hr =>
      obtain ⟨hcombo, part, hpart, hfind⟩ := hr
      exact ⟨part, ⟨c, hc, hcombo, hpart⟩, part?_eq_some.mpr hfind⟩
  · rintro ⟨part, ⟨c, hc, hcombo, hpart⟩, hq⟩
    exact .step hc ⟨hcombo, part, hpart, part?_eq_some.mp hq⟩

theorem transGen_iff_steps : TransGen l.Refers p q ↔ ∃ n, l.Steps p (n + 1) q := by
  constructor
  · intro h
    induction h with
    | single hr => exact ⟨0, .step .start hr⟩
    | tail _ hr ih =>
      obtain ⟨n, hn⟩ := ih
      exact ⟨n + 1, .step hn hr⟩
  · rintro ⟨n, h⟩
    induction n generalizing q with
    | zero =>
      cases h with
      | step hstart hr =>
        cases hstart
        exact .single hr
    | succ n ih =>
      cases h with
      | step hn hr => exact .tail (ih hn) hr

theorem Steps.combo_between (h : l.Steps p n q) (hm : m < n) :
    ∃ c, l.Steps p m c ∧ c.kind = .combo := by
  induction h with
  | start => exact absurd hm (Nat.not_lt_zero m)
  | @step n c _ hc hr ih =>
    rcases Nat.lt_succ_iff_lt_or_eq.mp hm with hlt | rfl
    · exact ih hlt
    · exact ⟨c, hc, hr.1⟩

theorem Distance.unique (hm : l.Distance p q m) (hn : l.Distance p q n) : m = n := by
  rcases Nat.lt_trichotomy m n with hlt | heq | hlt
  · exact absurd hm.1 (hn.2 m hlt)
  · exact heq
  · exact absurd hn.1 (hm.2 n hlt)

theorem Distance.transGen (h : l.Distance p q n) (hp : p.kind = .combo) (hq : q.kind = .simple) :
    TransGen l.Refers p q := by
  cases n with
  | zero =>
    cases h.1
    cases hp.symm.trans hq
  | succ n => exact transGen_iff_steps.mpr ⟨n, h.1⟩

theorem find?_of_transGen (h : TransGen l.Refers p q) : l.find? q.name = some q := by
  obtain ⟨c, -, -, part, -, -, hfind⟩ := TransGen.tail'_iff.mp h
  rwa [(mem_of_find? hfind).2]

def Settled (l : Library) (next : List (String × List String)) (found : List Pose) (part : String) :
    Prop :=
  ∀ q, l.part? part = some q → (q.kind = .simple → q ∈ found) ∧
    (q.kind = .combo → q.partA ∈ next.map Prod.fst ∧ q.partB ∈ next.map Prod.fst)

/-- The search is at the parts of the combos to which `k` references lead: those still to come are
in `level`, the parts one reference further wait in `next`, and the simple poses up to here are in
`found`, the nearest first. -/
structure Sweep (l : Library) (p : Pose) (k : Nat) (level next : List (String × List String))
    (found : List Pose) : Prop where
  current : ∀ part ∈ level.map Prod.fst, l.PartAt p k part
  following : ∀ part ∈ next.map Prod.fst, l.PartAt p (k + 1) part
  covered : ∀ part, l.PartAt p k part → part ∈ level.map Prod.fst ∨ l.Settled next found part
  earlier : ∀ n ≤ k, ∀ q, l.Steps p n q → q.kind = .simple → q ∈ found
  near : ∀ q ∈ found, q.kind = .simple ∧ ∃ n ≤ k + 1, l.Distance p q n
  ordered : found.Pairwise fun q r => ∀ m n, l.Distance p q m → l.Distance p r n → m ≤ n
  names : (found.map Pose.name).Nodup

theorem Settled.mono (h : l.Settled next found part) (hnext : next ⊆ next')
    (hfound : found ⊆ found') : l.Settled next' found' part := by
  intro q hq
  obtain ⟨hsimple, hcombo⟩ := h q hq
  have hmap := List.map_subset Prod.fst hnext
  exact ⟨fun hk => hfound (hsimple hk), fun hk => (hcombo hk).imp (fun h => hmap h) fun h => hmap h⟩

theorem settled_of_found (hq : l.part? part = some q) (hk : q.kind = .simple) (hmem : q ∈ found) :
    l.Settled next found part := by
  intro r hr
  obtain rfl := Option.some.inj (hq.symm.trans hr)
  exact ⟨fun _ => hmem, fun hcombo => absurd (hk.symm.trans hcombo) nofun⟩

namespace Sweep

theorem start (hp : p.kind = .combo) :
    l.Sweep p 0 [(p.partA, [p.name]), (p.partB, [p.name])] [] [] where
  current := by
    rw [List.map_cons, List.map_cons, List.map_nil, List.forall_mem_cons, List.forall_mem_singleton]
    exact ⟨⟨p, .start, hp, Or.inl rfl⟩, ⟨p, .start, hp, Or.inr rfl⟩⟩
  following := fun _ hpart => absurd hpart List.not_mem_nil
  covered := by
    rintro part ⟨c, hc, -, hpart⟩
    cases hc
    exact Or.inl (by simpa using hpart)
  earlier := by
    intro n hn q hq hk
    obtain rfl := Nat.le_zero.mp hn
    cases hq
    cases hp.symm.trans hk
  near := fun _ hq => absurd hq List.not_mem_nil
  ordered := .nil
  names := List.nodup_nil

theorem deeper (h : l.Sweep p k [] next found) : l.Sweep p (k + 1) next.reverse [] found where
  current := by
    simpa only [List.map_reverse, List.mem_reverse] using h.following
  following := fun _ hpart => absurd hpart List.not_mem_nil
  covered := by
    rintro part ⟨c, hc, hcombo, hpart⟩
    obtain ⟨name, hat, hname⟩ := steps_succ_iff.mp hc
    obtain ⟨-, hparts⟩ := (h.covered name hat).resolve_left List.not_mem_nil c hname
    rw [List.map_reverse, List.mem_reverse]
    rcases hpart with rfl | rfl
    · exact Or.inl (hparts hcombo).1
    · exact Or.inl (hparts hcombo).2
  earlier := by
    intro n hn q hq hk
    rcases Nat.le_succ_iff.mp hn with hn | rfl
    · exact h.earlier n hn q hq hk
    · obtain ⟨part, hat, hpart⟩ := steps_succ_iff.mp hq
      exact ((h.covered part hat).resolve_left List.not_mem_nil q hpart).1 hk
  near := fun q hq => by
    obtain ⟨hk, n, hn, hdistance⟩ := h.near q hq
    exact ⟨hk, n, Nat.le_succ_of_le hn, hdistance⟩
  ordered := h.ordered
  names := h.names

theorem covered_rest (h : l.Sweep p k ((part, ancestors) :: rest) next found) (hnext : next ⊆ next')
    (hfound : found ⊆ found') (hpart : l.Settled next' found' part) (other : String)
    (hother : l.PartAt p k other) : other ∈ rest.map Prod.fst ∨ l.Settled next' found' other := by
  rcases h.covered other hother with hmem | hsettled
  · rcases List.mem_cons.mp hmem with rfl | hmem
    · exact Or.inr hpart
    · exact Or.inl hmem
  · exact Or.inr (hsettled.mono hnext hfound)

theorem first (h : l.Sweep p k ((part, ancestors) :: rest) next found) : l.PartAt p k part :=
  h.current part List.mem_cons_self

theorem missing (h : l.Sweep p k ((part, ancestors) :: rest) next found)
    (hpart : l.part? part = none) : l.Sweep p k rest next found :=
  { h with
    current := (List.forall_mem_cons.mp h.current).2
    covered := by
      refine h.covered_rest (List.Subset.refl _) (List.Subset.refl _) fun q hq => ?_
      cases hpart.symm.trans hq }

theorem distance (h : l.Sweep p k ((part, ancestors) :: rest) next found)
    (hq : l.part? part = some q) (hk : q.kind = .simple) (hnew : q ∉ found) :
    l.Distance p q (k + 1) := by
  refine ⟨steps_succ_iff.mpr ⟨part, h.first, hq⟩, fun m hm hsteps => ?_⟩
  exact hnew (h.earlier m (Nat.le_of_lt_succ hm) q hsteps hk)

theorem mem_of_name (h : l.Sweep p k level next found) (hp : p.kind = .combo)
    (hq : TransGen l.Refers p q) (hname : q.name ∈ found.map Pose.name) : q ∈ found := by
  obtain ⟨r, hr, hrq⟩ := List.mem_map.mp hname
  obtain ⟨hk, n, -, hdistance⟩ := h.near r hr
  have hfind := find?_of_transGen (hdistance.transGen hp hk)
  rw [hrq, find?_of_transGen hq] at hfind
  rwa [Option.some.inj hfind]

theorem known (h : l.Sweep p k ((part, ancestors) :: rest) next found) (hq : l.part? part = some q)
    (hk : q.kind = .simple) (hmem : q ∈ found) : l.Sweep p k rest next found :=
  { h with
    current := (List.forall_mem_cons.mp h.current).2
    covered := h.covered_rest (List.Subset.refl _) (List.Subset.refl _)
      (settled_of_found hq hk hmem) }

/-- A pose that is added has its distance, and none of those before it has a greater one. -/
theorem added (h : l.Sweep p k ((part, ancestors) :: rest) next found) (hq : l.part? part = some q)
    (hk : q.kind = .simple) (hnew : q.name ∉ found.map Pose.name) :
    l.Sweep p k rest next (found ++ [q]) := by
  have hdistance : l.Distance p q (k + 1) :=
    h.distance hq hk fun hmem => hnew (List.mem_map_of_mem hmem)
  have hmem : q ∈ found ++ [q] := List.mem_append_right found (List.mem_singleton_self q)
  exact {
    current := (List.forall_mem_cons.mp h.current).2
    following := h.following
    covered := h.covered_rest (List.Subset.refl _) (List.subset_append_left _ _)
      (settled_of_found hq hk hmem)
    earlier := fun n hn r hr hsimple => List.mem_append_left _ (h.earlier n hn r hr hsimple)
    near := by
      rw [List.forall_mem_append, List.forall_mem_singleton]
      exact ⟨h.near, hk, k + 1, Nat.le_refl _, hdistance⟩
    ordered := by
      refine List.pairwise_append.mpr ⟨h.ordered, List.pairwise_singleton _ _, ?_⟩
      intro r hr q' hq' m n hm hn
      obtain rfl := List.mem_singleton.mp hq'
      obtain ⟨-, m', hm', hr'⟩ := h.near r hr
      rw [hm.unique hr', hn.unique hdistance]
      exact hm'
    names := by
      rw [List.map_append]
      refine h.names.append (List.nodup_singleton _) fun name hold hlast => ?_
      exact hnew (List.mem_singleton.mp hlast ▸ hold) }

theorem simple (h : l.Sweep p k ((part, ancestors) :: rest) next found) (hp : p.kind = .combo)
    (hq : l.part? part = some q) (hk : q.kind = .simple) :
    l.Sweep p k rest next (addFound found q) := by
  have hany : (found.any fun r => r.name == q.name) = true ↔ q.name ∈ found.map Pose.name := by
    simp only [List.any_eq_true, List.mem_map, beq_iff_eq]
  have hreach : TransGen l.Refers p q :=
    transGen_iff_steps.mpr ⟨k, steps_succ_iff.mpr ⟨part, h.first, hq⟩⟩
  unfold addFound
  split
  · rename_i hold
    exact h.known hq hk (h.mem_of_name hp hreach (hany.mp hold))
  · rename_i hnew
    exact h.added hq hk fun hmem => hnew (hany.mpr hmem)

theorem combo (h : l.Sweep p k ((part, ancestors) :: rest) next found) (hq : l.part? part = some q)
    (hk : q.kind = .combo) (path : List String) :
    l.Sweep p k rest ((q.partB, path) :: (q.partA, path) :: next) found :=
  { h with
    current := (List.forall_mem_cons.mp h.current).2
    following := by
      have hsteps : l.Steps p (k + 1) q := steps_succ_iff.mpr ⟨part, h.first, hq⟩
      simp only [List.map_cons, List.forall_mem_cons]
      exact ⟨⟨q, hsteps, hk, Or.inr rfl⟩, ⟨q, hsteps, hk, Or.inl rfl⟩, h.following⟩
    covered := by
      have hsubset : next ⊆ (q.partB, path) :: (q.partA, path) :: next := fun g hg => by simp [hg]
      refine h.covered_rest hsubset (List.Subset.refl _) fun r hr => ?_
      obtain rfl := Option.some.inj (hq.symm.trans hr)
      exact ⟨fun hsimple => absurd (hk.symm.trans hsimple) nofun, fun _ => by simp⟩ }

theorem mem_iff (h : l.Sweep p k [] [] found) (hp : p.kind = .combo) :
    q ∈ found ↔ q.kind = .simple ∧ TransGen l.Refers p q := by
  constructor
  · intro hq
    obtain ⟨hk, n, -, hdistance⟩ := h.near q hq
    exact ⟨hk, hdistance.transGen hp hk⟩
  · rintro ⟨hk, hreach⟩
    obtain ⟨n, hsteps⟩ := transGen_iff_steps.mp hreach
    have hsettled : ∀ part, l.PartAt p k part → l.Settled [] found part := fun part hat =>
      (h.covered part hat).resolve_left List.not_mem_nil
    rcases Nat.lt_trichotomy n k with hlt | rfl | hlt
    · exact h.earlier (n + 1) hlt q hsteps hk
    · obtain ⟨part, hat, hq⟩ := steps_succ_iff.mp hsteps
      exact (hsettled part hat q hq).1 hk
    · obtain ⟨c, hc, hcombo⟩ := hsteps.combo_between (Nat.succ_lt_succ hlt)
      obtain ⟨part, hat, hpart⟩ := steps_succ_iff.mp hc
      exact absurd ((hsettled part hat c hpart).2 hcombo).1 List.not_mem_nil

/-- The search that starts in such a state ends in one with nothing left. -/
theorem run (h : l.Sweep p k level next found) (hp : p.kind = .combo)
    (hposes : l.nestedFrom level next found = .ok poses) : ∃ n, l.Sweep p n [] [] poses := by
  fun_induction l.nestedFrom level next found generalizing k with
  | case1 found =>
    cases hposes
    exact ⟨k, h⟩
  | case2 found g next ih =>
    rw [List.unattach_reverse, List.unattach_attach] at ih
    exact ih h.deeper hposes
  | case3 => cases hposes
  | case4 next found part ancestors rest hpart hnone ih => exact ih (h.missing hnone) hposes
  | case5 next found part ancestors rest hpart q hq hk ih => exact ih (h.simple hp hq hk) hposes
  | case6 next found part ancestors rest hpart q hq hk path =>
    rename_i ih
    exact ih (h.combo hq hk path) hposes

end Sweep

theorem sweep_nested (hp : p.kind = .combo) (h : l.nested p = .ok poses) :
    ∃ n, l.Sweep p n [] [] poses :=
  (Sweep.start hp).run hp h

theorem name_reached_iff {inputs : List Input} (hp : p.kind = .combo) (h : l.inputs p = .ok inputs)
    (name : String) :
    (∃ q, (q.kind = .simple ∧ TransGen l.Refers p q) ∧ q.name = name) ↔
      name ∈ inputs.map Input.pose ∨
        ∃ q, (q.kind = .simple ∧ TransGen l.Refers p q) ∧ q.name = name ∧ q.input? = none := by
  obtain ⟨t, ht, rfl⟩ := unfolds_of_inputs h
  have hleaves : ∀ q, q.kind = .simple ∧ TransGen l.Refers p q ↔ q ∈ t.leaves := by
    intro q
    simp only [ht.mem_leaves, Option.some.injEq, exists_eq_left',
      Relation.reflTransGen_iff_eq_or_transGen]
    refine and_congr_right fun hq => ⟨Or.inr, fun h => h.resolve_left ?_⟩
    rintro rfl
    cases hp.symm.trans hq
  simp only [hleaves]
  constructor
  · rintro ⟨q, hq, rfl⟩
    cases hi : q.input? with
    | none => exact Or.inr ⟨q, hq, rfl, hi⟩
    | some i =>
      exact Or.inl (List.mem_map.mpr ⟨i, List.mem_filterMap.mpr ⟨q, hq, hi⟩,
        Pose.pose_of_input? hi⟩)
  · rintro (hmem | ⟨q, hq, hname, -⟩)
    · obtain ⟨i, hi, rfl⟩ := List.mem_map.mp hmem
      obtain ⟨q, hq, hqi⟩ := List.mem_filterMap.mp hi
      exact ⟨q, hq, (Pose.pose_of_input? hqi).symm⟩
    · exact ⟨q, hq, hname⟩

/-- The search for nested poses always ends, with poses or at a cycle. Where names are distinct the
poses nested in a combo are the simple poses that references reach from it, each of them once and
none before one that fewer references lead to. Their names are the labels of the inputs of the
combo, and the names of those poses which have no target or a path that cannot be read. -/
theorem nested_breadth_first (l : Library) :
    (∀ p, (∃ poses, l.nested p = .ok poses) ∨ ∃ chain, l.nested p = .error (.comboCycle chain)) ∧
    (l.names.Nodup → ∀ p ∈ l.poses, p.kind = .combo → ∀ poses, l.nested p = .ok poses →
      poses.Nodup ∧
      (∀ q, q ∈ poses ↔ q.kind = .simple ∧ TransGen l.Refers p q) ∧
      (∀ q ∈ poses, ∃ n, l.Distance p q n) ∧
      (poses.Pairwise fun q r => ∀ m n, l.Distance p q m → l.Distance p r n → m ≤ n) ∧
      ∃ inputs, l.inputs p = .ok inputs ∧
        ∀ name, name ∈ poses.map Pose.name ↔ name ∈ inputs.map Input.pose ∨
          ∃ q, (q.kind = .simple ∧ TransGen l.Refers p q) ∧ q.name = name ∧
            (q.usableTarget? = none ∨
              q.targetKind = .sceneProperty ∧ ∃ e, Path.parse q.dataPath = .error e)) := by
  refine ⟨nested_cases l, fun hnames p hp hk poses hposes => ?_⟩
  obtain ⟨n, hsweep⟩ := sweep_nested hk hposes
  obtain ⟨inputs, hinputs⟩ := ((nested_ok_iff hnames hp hk).mp ⟨poses, hposes⟩).1
  have hmem : ∀ q, q ∈ poses ↔ q.kind = .simple ∧ TransGen l.Refers p q :=
    fun q => hsweep.mem_iff hk
  refine ⟨hsweep.names.of_map, hmem, fun q hq => ?_, hsweep.ordered, inputs, hinputs,
    fun name => ?_⟩
  · obtain ⟨-, n, -, hdistance⟩ := hsweep.near q hq
    exact ⟨n, hdistance⟩
  · simp only [List.mem_map, hmem, name_reached_iff hk hinputs name, Pose.input?_eq_none]

theorem nested_breadth_first_frown :
    browLibrary.names.Nodup ∧ .ofParts "Frown" "Worry" "Up" ∈ browLibrary.poses ∧
    ∃ poses, browLibrary.nested (.ofParts "Frown" "Worry" "Up") = .ok poses ∧ poses.Nodup ∧
      upPose ∈ poses ∧ inPose ∈ poses := by
  have hnames : browLibrary.names.Nodup := by decide
  have hmem : Pose.ofParts "Frown" "Worry" "Up" ∈ browLibrary.poses := by simp [browLibrary]
  have htree : browLibrary.Unfolds (some (.ofParts "Frown" "Worry" "Up"))
      (.combo (.ofParts "Frown" "Worry" "Up") worryTree (.leaf upPose)) :=
    .combo rfl unfolds_worry (.leaf rfl)
  obtain ⟨poses, hposes⟩ := (nested_ok_iff hnames hmem rfl).mpr
    ⟨⟨_, inputs_of_unfolds hnames hmem htree⟩, fun h => absurd h.1 (by decide)⟩
  obtain ⟨hnodup, hreach, -⟩ := (nested_breadth_first browLibrary).2 hnames _ hmem rfl poses hposes
  have hup : browLibrary.Refers (.ofParts "Frown" "Worry" "Up") upPose :=
    ⟨rfl, "Up", Or.inr rfl, by decide, rfl⟩
  have hworry : browLibrary.Refers (.ofParts "Frown" "Worry" "Up") (.ofParts "Worry" "Up" "In") :=
    ⟨rfl, "Worry", Or.inl rfl, by decide, rfl⟩
  have hin : browLibrary.Refers (.ofParts "Worry" "Up" "In") inPose :=
    ⟨rfl, "In", Or.inr rfl, by decide, rfl⟩
  exact ⟨hnames, hmem, poses, hposes, hnodup, (hreach upPose).mpr ⟨rfl, .single hup⟩,
    (hreach inPose).mpr ⟨rfl, .head hworry (.single hin)⟩⟩

end PoseRig.Library
