import PoseRig.Proofs.Edit.Suspend
import PoseRig.Proofs.Network.Unfolding

/-!
# Nested poses and cycles

The search for nested poses goes level by level and keeps the way to each part; collecting inputs
goes down one part after the other. Both end at a cycle, and on no account at a part that names no
pose. The one difference is an unnamed combo: the search compares each part with the way to it
before it looks the part up, so below an unnamed combo it takes an empty part for the way back.
-/

set_option autoImplicit false

namespace PoseRig.Library

open Relation (ReflTransGen)

variable {l : Library} {p q : Pose} {part : String} {ancestors : List String}
  {level next : List (String × List String)} {found : List Pose}

/-- Nothing at or below a part is named like one of its ancestors. -/
inductive Clear (l : Library) : List String → String → Prop where
  | missing {ancestors : List String} {part : String} (new : part ∉ ancestors)
      (none : l.part? part = none) : Clear l ancestors part
  | simple {ancestors : List String} {part : String} {p : Pose} (new : part ∉ ancestors)
      (some : l.part? part = some p) (simple : p.kind = .simple) : Clear l ancestors part
  | combo {ancestors : List String} {part : String} {p : Pose} (new : part ∉ ancestors)
      (some : l.part? part = some p) (combo : p.kind = .combo)
      (a : Clear l (ancestors ++ [p.name]) p.partA) (b : Clear l (ancestors ++ [p.name]) p.partB) :
      Clear l ancestors part

/-- Some combo that a pose reaches has an empty part. -/
def ReachesEmpty (l : Library) (p : Pose) : Prop :=
  ∃ q, ReflTransGen l.Refers p q ∧ q.kind = .combo ∧ (q.partA = "" ∨ q.partB = "")

/-- A part is empty, or names a pose that reaches an empty part. -/
def LeadsToEmpty (l : Library) (part : String) : Prop :=
  part = "" ∨ ∃ p, l.part? part = some p ∧ l.ReachesEmpty p

theorem Clear.new (h : l.Clear ancestors part) : part ∉ ancestors := by
  cases h with
  | missing hnew => exact hnew
  | simple hnew => exact hnew
  | combo hnew => exact hnew

theorem Clear.combo_iff (hnew : part ∉ ancestors) (hp : l.part? part = some p)
    (hk : p.kind = .combo) :
    l.Clear ancestors part ↔
      l.Clear (ancestors ++ [p.name]) p.partA ∧ l.Clear (ancestors ++ [p.name]) p.partB := by
  constructor
  · intro h
    cases h with
    | missing _ hnone => cases hp.symm.trans hnone
    | simple _ hsome hk' =>
      obtain rfl := Option.some.inj (hp.symm.trans hsome)
      cases hk.symm.trans hk'
    | combo _ hsome _ ha hb =>
      obtain rfl := Option.some.inj (hp.symm.trans hsome)
      exact ⟨ha, hb⟩
  · rintro ⟨ha, hb⟩
    exact .combo hnew hp hk ha hb

/-- The search succeeds exactly when each part still to be looked at is clear of its ancestors, in
whatever order they come. -/
theorem nestedFrom_ok_iff :
    (∃ poses, l.nestedFrom level next found = .ok poses) ↔
      (∀ g ∈ level, l.Clear g.2 g.1) ∧ ∀ g ∈ next, l.Clear g.2 g.1 := by
  fun_induction l.nestedFrom level next found with
  | case1 found => simp
  | case2 found g next ih =>
    rw [List.unattach_reverse, List.unattach_attach] at ih
    rw [ih]
    simp only [List.mem_reverse, List.not_mem_nil, false_implies, implies_true, and_true, true_and]
  | case3 next found part ancestors rest hpart =>
    refine iff_of_false nofun fun h => ?_
    exact (h.1 (part, ancestors) List.mem_cons_self).new hpart
  | case4 next found part ancestors rest hpart hnone ih =>
    have hclear : l.Clear ancestors part := .missing hpart hnone
    rw [ih, List.forall_mem_cons]
    tauto
  | case5 next found part ancestors rest hpart p hp hk ih =>
    have hclear : l.Clear ancestors part := .simple hpart hp hk
    rw [ih, List.forall_mem_cons]
    tauto
  | case6 next found part ancestors rest hpart p hp hk path ih =>
    rw [ih, List.forall_mem_cons, List.forall_mem_cons, List.forall_mem_cons,
      Clear.combo_iff hpart hp hk]
    tauto

theorem nestedFrom_error {e : Fault} (h : l.nestedFrom level next found = .error e) :
    ∃ chain, e = .comboCycle chain := by
  fun_induction l.nestedFrom level next found with
  | case1 found => cases h
  | case2 found g next ih =>
    rw [List.unattach_reverse, List.unattach_attach] at ih
    exact ih h
  | case3 => exact ⟨_, (Except.error.inj h).symm⟩
  | case4 _ _ _ _ _ _ _ ih => exact ih h
  | case5 _ _ _ _ _ _ _ _ _ ih => exact ih h
  | case6 _ _ _ _ _ _ _ _ _ _ ih => exact ih h

theorem reachesEmpty_of_simple (hk : p.kind = .simple) : ¬l.ReachesEmpty p := by
  rintro ⟨q, hq, hcombo, -⟩
  obtain rfl := eq_of_reaches_simple hk hq
  cases hk.symm.trans hcombo

theorem reachesEmpty_of_combo (hk : p.kind = .combo) :
    l.ReachesEmpty p ↔ l.LeadsToEmpty p.partA ∨ l.LeadsToEmpty p.partB := by
  constructor
  · rintro ⟨q, hq, hcombo, hempty⟩
    rcases ReflTransGen.cases_head hq with rfl | ⟨r, hr, hrq⟩
    · exact hempty.imp Or.inl Or.inl
    · have hbelow : l.ReachesEmpty r := ⟨q, hrq, hcombo, hempty⟩
      obtain ⟨-, hr⟩ := refers_iff.mp hr
      exact hr.imp (fun h => Or.inr ⟨r, h, hbelow⟩) fun h => Or.inr ⟨r, h, hbelow⟩
  · rintro ((hempty | ⟨r, hr, q, hrq, hq⟩) | (hempty | ⟨r, hr, q, hrq, hq⟩))
    · exact ⟨p, .refl, hk, Or.inl hempty⟩
    · exact ⟨q, .head (refers_iff.mpr ⟨hk, Or.inl hr⟩) hrq, hq⟩
    · exact ⟨p, .refl, hk, Or.inr hempty⟩
    · exact ⟨q, .head (refers_iff.mpr ⟨hk, Or.inr hr⟩) hrq, hq⟩

theorem leadsToEmpty_of_part? (hp : l.part? part = some p) :
    l.LeadsToEmpty part ↔ l.ReachesEmpty p := by
  constructor
  · rintro (rfl | ⟨q, hq, hempty⟩)
    · cases hp
    · rwa [Option.some.inj (hp.symm.trans hq)]
  · intro h
    exact Or.inr ⟨p, hp, h⟩

theorem leadsToEmpty_of_missing (hp : l.part? part = none) : l.LeadsToEmpty part ↔ part = "" := by
  constructor
  · rintro (rfl | ⟨q, hq, -⟩)
    · rfl
    · cases hp.symm.trans hq
  · exact Or.inl

theorem bind_append_ok_iff {x y : Except Fault (List Input)} :
    (∃ inputs, (do let first ← x; let second ← y; return first ++ second) = .ok inputs) ↔
      (∃ first, x = .ok first) ∧ ∃ second, y = .ok second := by
  constructor
  · rintro ⟨inputs, h⟩
    obtain ⟨first, second, hx, hy, -⟩ := bind_append_ok h
    exact ⟨⟨first, hx⟩, second, hy⟩
  · rintro ⟨⟨first, rfl⟩, second, rfl⟩
    exact ⟨first ++ second, rfl⟩

/-- Below combos of the library, a part is clear exactly when its inputs have no cycle and, should
one of the combos be unnamed, no part down there is empty. -/
theorem clear_iff
    (hancestors : ∀ name ∈ ancestors, name ≠ "" → ∃ q, l.find? name = some q ∧ q.kind = .combo) :
    l.Clear ancestors part ↔
      (∃ inputs, l.partInputs ancestors part = .ok inputs) ∧
        ("" ∈ ancestors → ¬l.LeadsToEmpty part) := by
  fun_induction l.partInputs ancestors part with
  | case1 ancestors part hp =>
    rw [leadsToEmpty_of_missing hp]
    constructor
    · intro h
      exact ⟨⟨_, rfl⟩, fun hmem hempty => h.new (hempty ▸ hmem)⟩
    · rintro ⟨-, hempty⟩
      refine .missing (fun hmem => ?_) hp
      have hne : part ≠ "" := fun h => hempty (h ▸ hmem) h
      obtain ⟨q, hq, -⟩ := hancestors part hmem hne
      cases hp.symm.trans (part?_eq_some.mpr ⟨hne, hq⟩)
  | case2 ancestors part p hp hk =>
    rw [leadsToEmpty_of_part? hp]
    refine iff_of_true (.simple (fun hmem => ?_) hp hk)
      ⟨⟨_, rfl⟩, fun _ => reachesEmpty_of_simple hk⟩
    obtain ⟨hne, hfind⟩ := part?_eq_some.mp hp
    obtain ⟨q, hq, hcombo⟩ := hancestors part hmem hne
    obtain rfl := Option.some.inj (hfind.symm.trans hq)
    cases hk.symm.trans hcombo
  | case3 ancestors part p hp hk hmem =>
    rw [name_of_part? hp] at hmem
    constructor
    · exact fun h => absurd hmem h.new
    · rintro ⟨⟨_, h⟩, -⟩
      cases h
  | case4 ancestors part p hp hk hnew iha ihb =>
    have hname := name_of_part? hp
    obtain ⟨hne, hfind⟩ := part?_eq_some.mp hp
    have hbelow : ∀ name ∈ ancestors ++ [p.name], name ≠ "" →
        ∃ q, l.find? name = some q ∧ q.kind = .combo := by
      intro name hmem hname'
      rcases List.mem_append.mp hmem with hmem | hmem
      · exact hancestors name hmem hname'
      · obtain rfl := List.mem_singleton.mp hmem
        exact ⟨p, hname ▸ hfind, hk⟩
    have hunnamed : "" ∈ ancestors ++ [p.name] ↔ "" ∈ ancestors := by
      simp [hname, Ne.symm hne]
    rw [Clear.combo_iff (hname ▸ hnew) hp hk, iha hbelow, ihb hbelow, hunnamed,
      leadsToEmpty_of_part? hp, reachesEmpty_of_combo hk, bind_append_ok_iff, not_or, imp_and,
      and_and_and_comm]

theorem nested_ok_iff (hnames : l.names.Nodup) (hp : p ∈ l.poses) (hk : p.kind = .combo) :
    (∃ poses, l.nested p = .ok poses) ↔
      (∃ inputs, l.inputs p = .ok inputs) ∧ ¬(p.name = "" ∧ l.ReachesEmpty p) := by
  have hself : ∀ name ∈ [p.name], name ≠ "" → ∃ q, l.find? name = some q ∧ q.kind = .combo := by
    intro name hmem _
    obtain rfl := List.mem_singleton.mp hmem
    exact ⟨p, find?_of_mem hnames hp, hk⟩
  have hunnamed : "" ∈ [p.name] ↔ p.name = "" := by
    rw [List.mem_singleton]
    exact eq_comm
  have hinputs : l.inputs p = (do
      let first ← l.partInputs [p.name] p.partA
      let second ← l.partInputs [p.name] p.partB
      return first ++ second) := by
    rw [Library.inputs, hk]
  rw [Library.nested, nestedFrom_ok_iff, List.forall_mem_cons, List.forall_mem_singleton,
    clear_iff hself, clear_iff hself, hunnamed, reachesEmpty_of_combo hk, hinputs,
    bind_append_ok_iff]
  simp only [List.not_mem_nil, false_implies, implies_true, and_true, not_and, not_or, imp_and]
  exact and_and_and_comm

theorem inputs_cycle_iff (hnames : l.names.Nodup) (hp : p ∈ l.poses) :
    (∃ chain, l.inputs p = .error (.comboCycle chain)) ↔ l.ReachesCycle p := by
  constructor
  · rintro ⟨chain, h⟩
    obtain ⟨more, last, hc, -⟩ := closes_of_inputs h
    exact hc.reachesCycle hnames hp
  · intro hcycle
    rcases inputs_cases hnames hp with ⟨t, ht, -⟩ | ⟨-, more, last, -, h⟩
    · exact absurd hcycle ht.acyclic
    · exact ⟨_, h⟩

theorem nested_cases (l : Library) (p : Pose) :
    (∃ poses, l.nested p = .ok poses) ∨ ∃ chain, l.nested p = .error (.comboCycle chain) := by
  cases h : l.nested p with
  | ok poses => exact Or.inl ⟨poses, rfl⟩
  | error e =>
    obtain ⟨chain, rfl⟩ := nestedFrom_error h
    exact Or.inr ⟨chain, rfl⟩

theorem enter_ok_iff {prefs : Preferences} {rig : String} {index : Nat} {s : Scene} {a : Armature}
    (ha : s.armature rig = .ok a) (hindex : l.get index = .ok p) (hk : p.kind = .combo) :
    (∃ report session s', Edit.enter prefs rig l index .idle s = .ok (report, session, s')) ↔
      ∃ poses, l.nested p = .ok poses := by
  obtain ⟨o, ho, hoa⟩ := Scene.object_of_armature ha
  have hshown : Edit.shownWith l p = l.nested p := by simp [Edit.shownWith, Pose.isCombo, hk]
  constructor
  · rintro ⟨report, session, s', h⟩
    obtain ⟨q, poses, -, -, hq, hposes, -⟩ := Edit.enter_eq_ok h
    obtain rfl := Except.ok.inj (hindex.symm.trans hq)
    exact ⟨poses, hshown ▸ hposes⟩
  · rintro ⟨poses, hposes⟩
    simp [Edit.enter, Session.isEditing, hindex, hshown, hposes, ho, ha]

/-- Both searches end with poses and inputs, or at a cycle. Where names are distinct
collecting inputs fails exactly for a combo that reaches a cycle, whatever its parts name or
leave empty. The search for nested poses fails for the same combos and for one more kind: an
unnamed combo that reaches an empty part. So every other combo can be edited exactly when its
inputs can be collected. -/
theorem nested_stops_at_cycles (l : Library) (hnames : l.names.Nodup) (p : Pose) (hp : p ∈ l.poses)
    (hk : p.kind = .combo) :
    ((∃ poses, l.nested p = .ok poses) ∨ ∃ chain, l.nested p = .error (.comboCycle chain)) ∧
    ((∃ chain, l.inputs p = .error (.comboCycle chain)) ↔ l.ReachesCycle p) ∧
    ((∃ chain, l.nested p = .error (.comboCycle chain)) ↔
      l.ReachesCycle p ∨ p.name = "" ∧ l.ReachesEmpty p) ∧
    ∀ prefs rig index s a, s.armature rig = .ok a → l.get index = .ok p →
      ((∃ report session s', Edit.enter prefs rig l index .idle s = .ok (report, session, s')) ↔
        (∃ inputs, l.inputs p = .ok inputs) ∧ ¬(p.name = "" ∧ l.ReachesEmpty p)) := by
  have hok := nested_ok_iff hnames hp hk
  refine ⟨nested_cases l p, inputs_cycle_iff hnames hp, ?_, ?_⟩
  · have hnested : (∃ chain, l.nested p = .error (.comboCycle chain)) ↔
        ¬∃ poses, l.nested p = .ok poses := by
      rcases nested_cases l p with ⟨poses, h⟩ | ⟨chain, h⟩ <;> simp [h]
    have hinputs : (∃ inputs, l.inputs p = .ok inputs) ↔ ¬l.ReachesCycle p := by
      rcases inputs_cases hnames hp with ⟨t, ht, h⟩ | ⟨hcycle, more, last, -, h⟩
      · simp [h, ht.acyclic]
      · simp [h, hcycle]
    rw [hnested, hok, hinputs, not_and_or, not_not, not_not]
  · intro prefs rig index s a ha hindex
    rw [enter_ok_iff ha hindex hk, hok]

def faceScene : Scene where
  objects := .ofList [("Face", { kind := .armature, armature := some {} })]

def blinkPose : Pose := .ofChannel "Blink" "Face" "Lid" ⟨.location, .y⟩

def namelessLibrary (first : String) : Library where
  poses := [.ofParts "" first "Blink", blinkPose]

theorem nested_stops_at_cycles_nameless :
    (namelessLibrary "Gone").names.Nodup ∧
    (∃ poses, (namelessLibrary "Gone").nested (.ofParts "" "Gone" "Blink") = .ok poses) ∧
    ∃ report session s', Edit.enter {} "Face" (namelessLibrary "Gone") 0 .idle faceScene =
      .ok (report, session, s') := by
  have hnames : (namelessLibrary "Gone").names.Nodup := by decide
  have htree : (namelessLibrary "Gone").Unfolds (some (.ofParts "" "Gone" "Blink"))
      (.combo (.ofParts "" "Gone" "Blink") .missing (.leaf blinkPose)) :=
    .combo rfl .missing (.leaf rfl)
  have hempty : ¬(namelessLibrary "Gone").ReachesEmpty (.ofParts "" "Gone" "Blink") := by
    rw [reachesEmpty_of_combo rfl]
    rintro (h | h)
    · exact absurd ((leadsToEmpty_of_missing rfl).mp h) (by decide)
    · exact reachesEmpty_of_simple rfl ((leadsToEmpty_of_part? (p := blinkPose) rfl).mp h)
  obtain ⟨hcases, hinputs, hnested, henter⟩ :=
    nested_stops_at_cycles (namelessLibrary "Gone") hnames
    (.ofParts "" "Gone" "Blink") List.mem_cons_self rfl
  refine ⟨hnames, ?_, ?_⟩
  · rcases hcases with hok | hcycle
    · exact hok
    · rcases hnested.mp hcycle with h | ⟨-, h⟩
      · exact absurd h htree.acyclic
      · exact absurd h hempty
  · rw [henter {} "Face" 0 faceScene {} rfl rfl]
    exact ⟨⟨_, inputs_of_unfolds hnames List.mem_cons_self htree⟩, fun h => hempty h.2⟩

/-- An empty part of an unnamed combo counts as a cycle in one search and not in the other. -/
theorem nested_cycle_nameless :
    (namelessLibrary "").names.Nodup ∧ .ofParts "" "" "Blink" ∈ (namelessLibrary "").poses ∧
    (∃ inputs, (namelessLibrary "").inputs (.ofParts "" "" "Blink") = .ok inputs) ∧
    (namelessLibrary "").nested (.ofParts "" "" "Blink") = .error (.comboCycle ["", ""]) := by
  have htree : (namelessLibrary "").Unfolds (some (.ofParts "" "" "Blink"))
      (.combo (.ofParts "" "" "Blink") .missing (.leaf blinkPose)) :=
    .combo rfl .missing (.leaf rfl)
  have hnames : (namelessLibrary "").names.Nodup := by decide
  refine ⟨hnames, List.mem_cons_self, ⟨_, inputs_of_unfolds hnames List.mem_cons_self htree⟩, ?_⟩
  rw [Library.nested, nestedFrom, dif_pos (by decide)]
  rfl

end PoseRig.Library
