import Mathlib.Data.List.Chain
import Mathlib.Logic.Relation
import PoseRig.Proofs.Network.BlendText
import PoseRig.Proofs.Network.Compile
import PoseRig.Proofs.Pose.Library

/-!
# The pose graph unfolded

A combo refers to the poses that its parts name. Following references from a pose either comes back
to a combo on the way or ends in simple poses, and then the poses below it form a finite tree.
Collecting inputs tells the two apart: it reports the cycle, or it reads the leaves of the tree from
left to right.
-/

set_option autoImplicit false

namespace PoseRig

/-- A pose with everything below it; a part that names no pose is missing. -/
inductive Unfolding where
  | missing
  | leaf (p : Pose)
  | combo (p : Pose) (first second : Unfolding)

namespace Unfolding

def leaves : Unfolding → List Pose
  | missing => []
  | leaf p => [p]
  | combo _ first second => first.leaves ++ second.leaves

def size : Unfolding → Nat
  | missing => 0
  | leaf _ => 1
  | combo _ first second => first.size + second.size + 1

def inputs (t : Unfolding) : List Input := t.leaves.filterMap Pose.input?

end Unfolding

namespace Pose

theorem inputSource?_eq_none (p : Pose) :
    p.inputSource? = none ↔
      p.targetKind = .sceneProperty ∧ ∃ e, Path.parse p.dataPath = .error e := by
  unfold inputSource?
  generalize Path.parse p.dataPath = parsed
  cases p.targetKind <;> cases parsed <;> simp

theorem input?_eq_none (p : Pose) : p.input? = none ↔
    p.usableTarget? = none ∨ p.targetKind = .sceneProperty ∧
    ∃ e, Path.parse p.dataPath = .error e := by
  rw [← inputSource?_eq_none]
  unfold input?
  cases p.usableTarget? <;> cases p.inputSource? <;> simp

/-- What drives a simple pose: its channel of its bone as it is read, or what its path addresses. -/
def DrivenBy (p : Pose) : InputSource → Prop
  | .channel bone channel space reading => p.targetKind = .boneTransform ∧
      bone = p.bone ∧ channel = p.channel ∧ space = p.space ∧ reading = p.reading
  | .property path => p.targetKind = .sceneProperty ∧ Path.parse p.dataPath = .ok path

theorem inputSource?_eq_some (p : Pose) (source : InputSource) :
    p.inputSource? = some source ↔ p.DrivenBy source := by
  unfold inputSource?
  cases hkind : p.targetKind with
  | boneTransform =>
    cases source with
    | channel bone channel space reading =>
      simp only [DrivenBy, hkind, true_and, Option.some.injEq, InputSource.channel.injEq]
      simp only [eq_comm]
    | property path => simp [DrivenBy, hkind]
  | sceneProperty =>
    cases hpath : Path.parse p.dataPath <;> cases source <;> simp [DrivenBy, hkind, hpath]

theorem usableTarget?_eq_some (p : Pose) (target : String) :
    p.usableTarget? = some target ↔ p.target = some target ∧ target ≠ "" := by
  simp [usableTarget?, Option.filter_eq_some_iff]

/-- An input says which pose it is for, which object it is read from and over what range. -/
theorem input?_eq_some (p : Pose) (i : Input) : p.input? = some i ↔
    i.pose = p.name ∧ (p.target = some i.target ∧ i.target ≠ "") ∧ p.DrivenBy i.source ∧
      i.low = p.low ∧ i.high = p.high := by
  obtain ⟨pose, target, source, low, high⟩ := i
  rw [← usableTarget?_eq_some, ← inputSource?_eq_some]
  unfold input?
  cases p.usableTarget? with
  | none => simp
  | some target =>
    cases p.inputSource? with
    | none => simp
    | some source =>
      simp only [Option.some.injEq, Input.mk.injEq]
      simp only [eq_comm]

theorem pose_of_input? {p : Pose} {i : Input} (h : p.input? = some i) : i.pose = p.name :=
  ((input?_eq_some p i).mp h).1

end Pose

namespace Library

open Relation (TransGen ReflTransGen)

variable {l : Library} {p q : Pose} {t u : Unfolding} {inputs : List Input}
  {chain path : List String} {part : String}

/-- The tree below a pose, or below a part that may name none. -/
inductive Unfolds (l : Library) : Option Pose → Unfolding → Prop where
  | missing : Unfolds l none .missing
  | leaf {p : Pose} (simple : p.kind = .simple) : Unfolds l (some p) (.leaf p)
  | combo {p : Pose} {first second : Unfolding} (combo : p.kind = .combo)
      (a : Unfolds l (l.part? p.partA) first) (b : Unfolds l (l.part? p.partB) second) :
      Unfolds l (some p) (.combo p first second)

def Refers (l : Library) (p q : Pose) : Prop :=
  p.kind = .combo ∧ ∃ part, (part = p.partA ∨ part = p.partB) ∧ part ≠ "" ∧ l.find? part = some q

/-- References lead from `p` to a combo from which they lead back to it. -/
def ReachesCycle (l : Library) (p : Pose) : Prop :=
  ∃ q, q.kind = .combo ∧ ReflTransGen l.Refers p q ∧ TransGen l.Refers q q

/-- The pose called `name` is a combo with `next` for a part. -/
def NamesPart (l : Library) (name next : String) : Prop :=
  ∃ p ∈ l.poses, p.name = name ∧ p.kind = .combo ∧ next ≠ "" ∧ (p.partA = next ∨ p.partB = next)

theorem part?_eq_some : l.part? part = some q ↔ part ≠ "" ∧ l.find? part = some q := by
  unfold part?
  split <;> simp_all

theorem refers_iff :
    l.Refers p q ↔ p.kind = .combo ∧ (l.part? p.partA = some q ∨ l.part? p.partB = some q) := by
  unfold Refers
  simp only [or_and_right, exists_or, exists_eq_left, part?_eq_some]

theorem eq_of_reaches_simple (hk : p.kind = .simple) (h : ReflTransGen l.Refers p q) : q = p := by
  rcases ReflTransGen.cases_head h with rfl | ⟨r, ⟨hcombo, -⟩, -⟩
  · rfl
  · cases hk.symm.trans hcombo

theorem Unfolds.unique {o : Option Pose} (h : l.Unfolds o t) (h' : l.Unfolds o u) : t = u := by
  induction h generalizing u with
  | missing =>
    cases h'
    rfl
  | leaf hk =>
    cases h' with
    | leaf => rfl
    | combo hk' => exact absurd (hk.symm.trans hk') nofun
  | combo hk _ _ iha ihb =>
    cases h' with
    | leaf hk' => exact absurd (hk.symm.trans hk') nofun
    | combo _ ha hb => rw [iha ha, ihb hb]

theorem Unfolds.refers (h : l.Unfolds (some p) t) (hr : l.Refers p q) :
    ∃ u, l.Unfolds (some q) u ∧ u.size < t.size := by
  obtain ⟨hk, hpart⟩ := refers_iff.mp hr
  cases h with
  | leaf hk' => exact absurd (hk.symm.trans hk') nofun
  | combo _ ha hb =>
    simp only [Unfolding.size]
    rcases hpart with hpart | hpart
    · rw [hpart] at ha
      exact ⟨_, ha, by omega⟩
    · rw [hpart] at hb
      exact ⟨_, hb, by omega⟩

theorem Unfolds.reaches (h : l.Unfolds (some p) t) (hr : ReflTransGen l.Refers p q) :
    ∃ u, l.Unfolds (some q) u := by
  induction hr with
  | refl => exact ⟨t, h⟩
  | tail _ hr ih =>
    obtain ⟨u, hu⟩ := ih
    obtain ⟨v, hv, -⟩ := hu.refers hr
    exact ⟨v, hv⟩

theorem Unfolds.descends (h : l.Unfolds (some p) t) (hr : TransGen l.Refers p q) :
    ∃ u, l.Unfolds (some q) u ∧ u.size < t.size := by
  induction hr with
  | single hr => exact h.refers hr
  | tail _ hr ih =>
    obtain ⟨u, hu, hlt⟩ := ih
    obtain ⟨v, hv, hlt'⟩ := hu.refers hr
    exact ⟨v, hv, hlt'.trans hlt⟩

/-- A pose with a tree reaches no cycle: the tree of a pose on it would be smaller than itself. -/
theorem Unfolds.acyclic (h : l.Unfolds (some p) t) : ¬l.ReachesCycle p := by
  rintro ⟨q, -, hpq, hqq⟩
  obtain ⟨u, hu⟩ := h.reaches hpq
  obtain ⟨v, hv, hlt⟩ := hu.descends hqq
  rw [hv.unique hu] at hlt
  exact Nat.lt_irrefl _ hlt

theorem unfolds_of_partInputs (h : l.partInputs path part = .ok inputs) :
    ∃ t, l.Unfolds (l.part? part) t ∧ inputs = t.inputs := by
  fun_induction l.partInputs path part generalizing inputs with
  | case1 path part hp =>
    obtain rfl := Except.ok.inj h
    rw [hp]
    exact ⟨.missing, .missing, rfl⟩
  | case2 path part p hp hk =>
    obtain rfl := Except.ok.inj h
    rw [hp]
    refine ⟨.leaf p, .leaf hk, ?_⟩
    cases hi : p.input? <;> simp [Unfolding.inputs, Unfolding.leaves, hi]
  | case3 => cases h
  | case4 path part p hp hk hn ih₁ ih₂ =>
    obtain ⟨first, second, h₁, h₂, rfl⟩ := bind_append_ok h
    obtain ⟨t, ht, rfl⟩ := ih₁ h₁
    obtain ⟨u, hu, rfl⟩ := ih₂ h₂
    rw [hp]
    exact ⟨.combo p t u, .combo hk ht hu, by simp [Unfolding.inputs, Unfolding.leaves]⟩

theorem unfolds_of_inputs (h : l.inputs p = .ok inputs) :
    ∃ t, l.Unfolds (some p) t ∧ inputs = t.inputs := by
  unfold Library.inputs at h
  cases hk : p.kind with
  | simple =>
    rw [hk] at h
    obtain rfl := Except.ok.inj h
    refine ⟨.leaf p, .leaf hk, ?_⟩
    cases hi : p.input? <;> simp [Unfolding.inputs, Unfolding.leaves, hi]
  | combo =>
    rw [hk] at h
    obtain ⟨first, second, h₁, h₂, rfl⟩ := bind_append_ok h
    obtain ⟨t, ht, rfl⟩ := unfolds_of_partInputs h₁
    obtain ⟨u, hu, rfl⟩ := unfolds_of_partInputs h₂
    exact ⟨.combo p t u, .combo hk ht hu, by simp [Unfolding.inputs, Unfolding.leaves]⟩

theorem Refers.namesPart (hp : p ∈ l.poses) (h : l.Refers p q) : l.NamesPart p.name q.name := by
  obtain ⟨hk, part, hpart, hne, hfind⟩ := h
  obtain rfl := (mem_of_find? hfind).2
  refine ⟨p, hp, rfl, hk, hne, ?_⟩
  rcases hpart with h | h
  · exact Or.inl h.symm
  · exact Or.inr h.symm

/-- A walk along references that ends at a pose of a name met before. -/
structure Closes (l : Library) (walk : List Pose) (last : Pose) : Prop where
  refers : (walk ++ [last]).IsChain l.Refers
  met : last.name ∈ walk.map Pose.name

theorem isChain_concat {walk : List Pose} (hwalk : (walk ++ [p]).IsChain l.Refers)
    (h : l.Refers p q) : (walk ++ [p] ++ [q]).IsChain l.Refers := by
  rw [List.append_assoc]
  exact List.isChain_append_cons_cons.mpr ⟨hwalk, h, List.isChain_singleton q⟩

theorem closes_of_partInputs (walk : List Pose) {top : Pose}
    (h : l.partInputs ((walk ++ [top]).map Pose.name) part = .error (.comboCycle chain))
    (hwalk : (walk ++ [top]).IsChain l.Refers)
      (htop : ∀ q, l.part? part = some q → l.Refers top q) :
    ∃ more last, l.Closes (walk ++ top :: more) last ∧
      chain = (walk ++ top :: more ++ [last]).map Pose.name := by
  generalize hpath : (walk ++ [top]).map Pose.name = path at h
  fun_induction l.partInputs path part generalizing walk top with
  | case1 => cases h
  | case2 => cases h
  | case3 path part p hp hk hn =>
    subst hpath
    obtain rfl : _ = chain := Fault.comboCycle.inj (Except.error.inj h)
    have hnext : (walk ++ [top] ++ [p]).IsChain l.Refers := isChain_concat hwalk (htop p hp)
    exact ⟨[], p, ⟨hnext, by simpa using hn⟩, by simp⟩
  | case4 path part p hp hk hn ih₁ ih₂ =>
    subst hpath
    have hnext : (walk ++ [top] ++ [p]).IsChain l.Refers := isChain_concat hwalk (htop p hp)
    have hmap :
        (walk ++ [top] ++ [p]).map Pose.name = (walk ++ [top]).map Pose.name ++ [p.name] := by
      simp
    rcases bind_append_error h with h | h
    · obtain ⟨more, last, hc, rfl⟩ :=
        ih₁ (walk ++ [top]) hnext (fun q hq => refers_iff.mpr ⟨hk, Or.inl hq⟩) hmap h
      exact ⟨p :: more, last, by simpa using hc, by simp⟩
    · obtain ⟨more, last, hc, rfl⟩ :=
        ih₂ (walk ++ [top]) hnext (fun q hq => refers_iff.mpr ⟨hk, Or.inr hq⟩) hmap h
      exact ⟨p :: more, last, by simpa using hc, by simp⟩

theorem closes_of_inputs (h : l.inputs p = .error (.comboCycle chain)) :
    ∃ more last, l.Closes (p :: more) last ∧ chain = (p :: more ++ [last]).map Pose.name := by
  unfold Library.inputs at h
  cases hk : p.kind with
  | simple => simp [hk] at h
  | combo =>
    rw [hk] at h
    have hstart : ([] ++ [p]).IsChain l.Refers := List.isChain_singleton p
    rcases bind_append_error h with h | h
    · exact closes_of_partInputs [] h hstart fun q hq => refers_iff.mpr ⟨hk, Or.inl hq⟩
    · exact closes_of_partInputs [] h hstart fun q hq => refers_iff.mpr ⟨hk, Or.inr hq⟩

theorem Refers.mem (h : l.Refers p q) : q ∈ l.poses := by
  obtain ⟨-, part, -, -, hfind⟩ := h
  exact (mem_of_find? hfind).1

theorem mem_of_transGen (h : TransGen l.Refers p q) : q ∈ l.poses := by
  obtain ⟨r, -, hr⟩ := TransGen.tail'_iff.mp h
  exact hr.mem

theorem Closes.mem {more : List Pose} {last : Pose} (h : l.Closes (p :: more) last)
    (hp : p ∈ l.poses) : ∀ q ∈ p :: more ++ [last], q ∈ l.poses := by
  have hpairs : (p :: (more ++ [last])).Pairwise (TransGen l.Refers) :=
    (h.refers.imp fun _ _ => TransGen.single).pairwise
  intro q hq
  rcases List.mem_cons.mp hq with rfl | hq
  · exact hp
  · exact mem_of_transGen ((List.pairwise_cons.mp hpairs).1 q hq)

/-- Where names are distinct, a closed walk from a pose of the library runs into a cycle. -/
theorem Closes.reachesCycle {more : List Pose} {last : Pose} (h : l.Closes (p :: more) last)
    (hnames : l.names.Nodup) (hp : p ∈ l.poses) : l.ReachesCycle p := by
  have hpairs : (p :: more ++ [last]).Pairwise (TransGen l.Refers) :=
    (h.refers.imp fun _ _ => TransGen.single).pairwise
  obtain ⟨q, hq, hname⟩ := List.mem_map.mp h.met
  obtain rfl : q = last :=
    eq_of_name_eq hnames (h.mem hp q (List.mem_append_left _ hq)) (h.mem hp last (by simp)) hname
  obtain ⟨hwalk, -, hto⟩ := List.pairwise_append.mp hpairs
  have hreach : ReflTransGen l.Refers p q := by
    rcases List.mem_cons.mp hq with rfl | hq
    · exact .refl
    · exact ((List.pairwise_cons.mp hwalk).1 q hq).to_reflTransGen
  have hcycle : TransGen l.Refers q q := hto q hq q (List.mem_singleton_self q)
  obtain ⟨r, hr, -⟩ := TransGen.head'_iff.mp hcycle
  exact ⟨q, hr.1, hreach, hcycle⟩

theorem Closes.namesPart {more : List Pose} {last : Pose} (h : l.Closes (p :: more) last)
    (hp : p ∈ l.poses) : ((p :: more ++ [last]).map Pose.name).IsChain l.NamesPart := by
  rw [List.isChain_map]
  apply h.refers.imp_of_mem_imp
  intro a b ha _ hab
  exact hab.namesPart (h.mem hp a ha)

/-- Where names are distinct, collecting the inputs of a pose either reads the tree below it or
comes upon a cycle. -/
theorem inputs_cases (hnames : l.names.Nodup) (hp : p ∈ l.poses) :
    (∃ t, l.Unfolds (some p) t ∧ l.inputs p = .ok t.inputs) ∨
      (l.ReachesCycle p ∧ ∃ more last, l.Closes (p :: more) last ∧
        l.inputs p = .error (.comboCycle ((p :: more ++ [last]).map Pose.name))) := by
  cases h : l.inputs p with
  | ok inputs =>
    obtain ⟨t, ht, rfl⟩ := unfolds_of_inputs h
    exact Or.inl ⟨t, ht, rfl⟩
  | error e =>
    obtain ⟨chain, rfl⟩ := inputs_error h
    obtain ⟨more, last, hc, rfl⟩ := closes_of_inputs h
    exact Or.inr ⟨hc.reachesCycle hnames hp, more, last, hc, rfl⟩

theorem inputs_of_unfolds (hnames : l.names.Nodup) (hp : p ∈ l.poses) (h : l.Unfolds (some p) t) :
    l.inputs p = .ok t.inputs := by
  rcases inputs_cases hnames hp with ⟨u, hu, hok⟩ | ⟨hcycle, -⟩
  · rw [hok, h.unique hu]
  · exact absurd hcycle h.acyclic

theorem exists_unfolds (hnames : l.names.Nodup) (hp : p ∈ l.poses) (h : ¬l.ReachesCycle p) :
    ∃ t, l.Unfolds (some p) t := by
  rcases inputs_cases hnames hp with ⟨t, ht, -⟩ | ⟨hcycle, -⟩
  · exact ⟨t, ht⟩
  · exact absurd hcycle h

theorem Unfolds.simple_leaves {o : Option Pose} (h : l.Unfolds o t) :
    ∀ q ∈ t.leaves, q.kind = .simple := by
  induction h with
  | missing => simp [Unfolding.leaves]
  | leaf hk => simpa [Unfolding.leaves] using hk
  | combo _ _ _ iha ihb =>
    rw [Unfolding.leaves, List.forall_mem_append]
    exact ⟨iha, ihb⟩

/-- The leaves of a tree are the simple poses that references reach. -/
theorem Unfolds.mem_leaves {o : Option Pose} (h : l.Unfolds o t) :
    q ∈ t.leaves ↔ q.kind = .simple ∧ ∃ p, o = some p ∧ ReflTransGen l.Refers p q := by
  induction h with
  | missing => simp [Unfolding.leaves]
  | @leaf p hk =>
    simp only [Unfolding.leaves, List.mem_singleton, Option.some.injEq, exists_eq_left']
    constructor
    · rintro rfl
      exact ⟨hk, .refl⟩
    · rintro ⟨-, hq⟩
      exact eq_of_reaches_simple hk hq
  | @combo p _ _ hk _ _ iha ihb =>
    simp only [Unfolding.leaves, List.mem_append, iha, ihb, Option.some.injEq, exists_eq_left',
      ← and_or_left]
    refine and_congr_right fun hq => ⟨?_, fun h => ?_⟩
    · rintro (⟨r, hr, hrq⟩ | ⟨r, hr, hrq⟩)
      · exact .head (refers_iff.mpr ⟨hk, Or.inl hr⟩) hrq
      · exact .head (refers_iff.mpr ⟨hk, Or.inr hr⟩) hrq
    · rcases ReflTransGen.cases_head h with rfl | ⟨r, hr, hrq⟩
      · cases hk.symm.trans hq
      · exact (refers_iff.mp hr).2.imp (fun h => ⟨r, h, hrq⟩) fun h => ⟨r, h, hrq⟩

/-- Collecting the inputs of a pose follows the pose graph. It always ends, with inputs or with a
cycle. Where names are distinct a cycle is reported exactly for the poses that reach one, as a chain
of names from the pose along parts to a name met before. Every other pose has a finite tree below it
and no second one, and its inputs, numbered in order, are those of the leaves from left to right; a
leaf is passed over when it has no target or its path cannot be read, and otherwise its input holds
its name, its target, what drives it and its range. -/
theorem inputs_follow_references (l : Library) :
    (∀ p, (∃ inputs, l.inputs p = .ok inputs) ∨ ∃ chain, l.inputs p = .error (.comboCycle chain)) ∧
    (l.names.Nodup → ∀ p ∈ l.poses,
      ((∃ chain, l.inputs p = .error (.comboCycle chain)) ↔ l.ReachesCycle p) ∧
      (∀ chain, l.inputs p = .error (.comboCycle chain) →
        chain.head? = some p.name ∧ chain.IsChain l.NamesPart ∧
          ∃ earlier last, chain = earlier ++ [last] ∧ last ∈ earlier) ∧
      (¬l.ReachesCycle p →
        ∃ t inputs, (∀ u, l.Unfolds (some p) u ↔ u = t) ∧ l.inputs p = .ok inputs ∧
          inputs = t.leaves.filterMap Pose.input? ∧
          (Network.named 0 inputs).map Prod.snd = inputs ∧
          (Network.named 0 inputs).map Prod.fst =
            (List.range inputs.length).map Network.variableName ∧
          ∀ q ∈ t.leaves, q.kind = .simple ∧
            (q.input? = none ↔ q.usableTarget? = none ∨
              q.targetKind = .sceneProperty ∧ ∃ e, Path.parse q.dataPath = .error e) ∧
            ∀ i, q.input? = some i ↔
              i.pose = q.name ∧ (q.target = some i.target ∧ i.target ≠ "") ∧
                q.DrivenBy i.source ∧ i.low = q.low ∧ i.high = q.high)) := by
  constructor
  · intro p
    cases h : l.inputs p with
    | ok inputs => exact Or.inl ⟨inputs, rfl⟩
    | error e =>
      obtain ⟨chain, rfl⟩ := inputs_error h
      exact Or.inr ⟨chain, rfl⟩
  · intro hnames p hp
    refine ⟨⟨?_, ?_⟩, ?_, ?_⟩
    · rintro ⟨chain, h⟩
      obtain ⟨more, last, hc, -⟩ := closes_of_inputs h
      exact hc.reachesCycle hnames hp
    · intro hcycle
      rcases inputs_cases hnames hp with ⟨t, ht, -⟩ | ⟨-, more, last, -, h⟩
      · exact absurd hcycle ht.acyclic
      · exact ⟨_, h⟩
    · intro chain h
      obtain ⟨more, last, hc, rfl⟩ := closes_of_inputs h
      refine ⟨rfl, hc.namesPart hp, (p :: more).map Pose.name, last.name, ?_, hc.met⟩
      rw [List.map_append, List.map_singleton]
    · intro hfree
      obtain ⟨t, ht⟩ := exists_unfolds hnames hp hfree
      refine ⟨t, t.inputs, ?_, inputs_of_unfolds hnames hp ht, rfl,
        Network.inputs_named 0 _, ?_, ?_⟩
      · intro u
        constructor
        · intro hu
          exact hu.unique ht
        · rintro rfl
          exact ht
      · rw [Network.names_named, List.range_eq_range']
      · intro q hq
        exact ⟨ht.simple_leaves q hq, q.input?_eq_none, q.input?_eq_some⟩

def upPose : Pose := .ofChannel "Up" "Face" "Brow" ⟨.location, .y⟩

def inPose : Pose := .ofChannel "In" "Face" "Brow" ⟨.location, .x⟩

def browLibrary : Library where
  poses :=
    [upPose, inPose, .ofParts "Worry" "Up" "In", .ofParts "Frown" "Worry" "Up",
      .ofParts "Deep" "Worry" "Worry", .ofParts "Left" "Up" "Right", .ofParts "Right" "Left" ""]

def worryTree : Unfolding := .combo (.ofParts "Worry" "Up" "In") (.leaf upPose) (.leaf inPose)

theorem unfolds_worry : browLibrary.Unfolds (browLibrary.part? "Worry") worryTree :=
  .combo rfl (.leaf rfl) (.leaf rfl)

theorem inputs_follow_references_brow :
    browLibrary.names.Nodup ∧
    (∃ chain, browLibrary.inputs (.ofParts "Left" "Up" "Right") = .error (.comboCycle chain) ∧
      chain.head? = some "Left") ∧
    ∃ inputs, browLibrary.inputs (.ofParts "Deep" "Worry" "Worry") = .ok inputs ∧
      inputs =
        [⟨"Up", "Face", .channel "Brow" ⟨.location, .y⟩ .local .auto, 0, 1⟩,
          ⟨"In", "Face", .channel "Brow" ⟨.location, .x⟩ .local .auto, 0, 1⟩,
          ⟨"Up", "Face", .channel "Brow" ⟨.location, .y⟩ .local .auto, 0, 1⟩,
          ⟨"In", "Face", .channel "Brow" ⟨.location, .x⟩ .local .auto, 0, 1⟩] := by
  have hnames : browLibrary.names.Nodup := by decide
  obtain ⟨-, h⟩ := inputs_follow_references browLibrary
  refine ⟨hnames, ?_, ?_⟩
  · obtain ⟨hcycle, hchain, -⟩ := h hnames (.ofParts "Left" "Up" "Right") (by simp [browLibrary])
    have hthere : browLibrary.Refers (.ofParts "Left" "Up" "Right") (.ofParts "Right" "Left" "") :=
      ⟨rfl, "Right", Or.inr rfl, by decide, rfl⟩
    have hback : browLibrary.Refers (.ofParts "Right" "Left" "") (.ofParts "Left" "Up" "Right") :=
      ⟨rfl, "Left", Or.inl rfl, by decide, rfl⟩
    obtain ⟨chain, hin⟩ := hcycle.mpr ⟨_, rfl, .refl, .head hthere (.single hback)⟩
    exact ⟨chain, hin, (hchain chain hin).1⟩
  · obtain ⟨-, -, htree⟩ := h hnames (.ofParts "Deep" "Worry" "Worry") (by simp [browLibrary])
    have hdeep : browLibrary.Unfolds (some (.ofParts "Deep" "Worry" "Worry"))
        (.combo (.ofParts "Deep" "Worry" "Worry") worryTree worryTree) :=
      .combo rfl unfolds_worry unfolds_worry
    obtain ⟨t, inputs, hunique, hin, hinputs, -⟩ := htree hdeep.acyclic
    obtain rfl := (hunique _).mp hdeep
    exact ⟨inputs, hin, hinputs⟩

end Library

end PoseRig
