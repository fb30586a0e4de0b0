import PoseRig.Proofs.Network.Blend
import PoseRig.Proofs.Network.Unfolding
import PoseRig.Proofs.Number.Order

/-!
# Combos as gates

The inputs of a combo are those of its two parts, numbered anew. On live readings each term of a
blend has a value that depends on its input alone, so the blend of a combo is the lesser of the
blends of its parts.
-/

set_option autoImplicit false

namespace PoseRig

namespace Input

variable (i : Input) (mode : BlendMode) {name : String} {lookup : String → Option Scalar}

/-- What a term of a blend is worth on a live reading, if there is one and the range is not flat. -/
def live (reading : Option Scalar) : Option Scalar :=
  reading.bind fun x => if i.IsFlat then none else some (i.normalized mode x)

theorem eval_reading_none (h : lookup name = none) :
    (i.readingExpr name).eval lookup = .error (.unknownVariable name) := by
  unfold readingExpr
  split <;> simp [Expr.eval, Expr.evalAll, h]

theorem eval_ratio_none (h : lookup name = none) :
    (i.ratioExpr name).eval lookup = .error (.unknownVariable name) := by
  rw [ratioExpr, Expr.eval, Expr.eval, i.eval_reading_none h]

theorem eval_term_none (h : lookup name = none) :
    (i.termExpr mode name).eval lookup = .error (.unknownVariable name) := by
  cases mode with
  | raw => exact i.eval_ratio_none h
  | floored => simp [termExpr, Expr.eval, Expr.evalAll, i.eval_ratio_none h]

theorem toOption_eval_term (hi : i.IsFinite) :
    ((i.termExpr mode name).eval lookup).toOption = i.live mode (lookup name) := by
  cases h : lookup name with
  | none =>
    rw [i.eval_term_none mode h]
    rfl
  | some x =>
    rw [i.eval_term mode hi h, live, Option.bind_some]
    split <;> rfl

end Input

namespace Expr

variable {α : Type} {lookup : String → Option Scalar}

theorem toOption_evalAll {f : α → Expr} {g : α → Option Scalar} {as : List α}
    (h : ∀ a ∈ as, ((f a).eval lookup).toOption = g a) :
    (evalAll lookup (as.map f)).toOption = as.mapM g := by
  induction as with
  | nil => rfl
  | cons a r ih =>
    have hr := ih fun b hb => h b (List.mem_cons_of_mem a hb)
    rw [List.map_cons, evalAll, List.mapM_cons, ← h a List.mem_cons_self, ← hr]
    cases eval lookup (f a) with
    | error e => rfl
    | ok x =>
      cases evalAll lookup (r.map f) with
      | error e => rfl
      | ok xs => rfl

theorem toOption_eval_min (args : List Expr) :
    ((Expr.call "min" args).eval lookup).toOption =
      (evalAll lookup args).toOption.bind Network.weakest? := by
  rw [eval]
  cases evalAll lookup args with
  | error e => rfl
  | ok xs => cases xs <;> rfl

end Expr

namespace Network

variable {mode : BlendMode} {read : Input → Option Scalar} {inputs as bs : List Input}

/-- What a blend reads and evaluates to when each numbered variable has the live reading of its
input; nothing without inputs. -/
def liveBlend (mode : BlendMode) (read : Input → Option Scalar) (inputs : List Input) :
    Option (Except ExprError Scalar) :=
  (expression? mode inputs).map fun text =>
    (Expr.parse text).bind fun e => e.eval fun name => ((named 0 inputs).lookup name).bind read

def liveLeast (mode : BlendMode) (read : Input → Option Scalar) (inputs : List Input) :
    Option Scalar :=
  (inputs.mapM fun i : Input => i.live mode (read i)).bind weakest?

theorem toOption_eval_blend (hfin : ∀ i ∈ inputs, i.IsFinite) :
    ((blendExpr mode inputs).eval fun name => ((named 0 inputs).lookup name).bind read).toOption =
      liveLeast mode read inputs := by
  have hterms : ∀ v ∈ named 0 inputs, ((v.2.termExpr mode v.1).eval fun name =>
      ((named 0 inputs).lookup name).bind read).toOption = v.2.live mode (read v.2) := by
    intro v hv
    rw [v.2.toOption_eval_term mode (hfin v.2 (mem_of_mem_named hv)),
      lookup_of_mem (nodup_names inputs) hv, Option.bind_some]
  have hinputs : (named 0 inputs).mapM (fun v => v.2.live mode (read v.2)) =
      inputs.mapM fun i : Input => i.live mode (read i) := by
    have h := List.mapM_map (f := Prod.snd) (g := fun i : Input => i.live mode (read i))
        (l := named 0 inputs)
    rw [inputs_named] at h
    exact h.symm
  rw [blendExpr, Expr.toOption_eval_min, Expr.toOption_evalAll hterms, hinputs]
  rfl

theorem toOption_eq_some {α : Type} {x : α} {r : Except ExprError α} :
    r.toOption = some x ↔ r = .ok x := by
  cases r <;> simp [Except.toOption]

theorem liveBlend_eq_ok (hne : inputs ≠ []) (hfin : ∀ i ∈ inputs, i.IsFinite) {x : Scalar} :
    liveBlend mode read inputs = some (.ok x) ↔ liveLeast mode read inputs = some x := by
  obtain ⟨text, htext, hparse⟩ := parse_expression? mode hne hfin
  rw [liveBlend, htext, Option.map_some, hparse, Option.some_inj, ← toOption_eval_blend hfin,
    toOption_eq_some]
  rfl

theorem weakest?_append {xs ys : List Scalar} (hx : xs ≠ []) (hy : ys ≠ []) :
    weakest? (xs ++ ys) = (weakest? xs).bind fun x => (weakest? ys).map (Scalar.min x) := by
  cases xs with
  | nil => exact absurd rfl hx
  | cons x xs =>
    cases ys with
    | nil => exact absurd rfl hy
    | cons y ys =>
      rw [List.cons_append, weakest?, List.foldl_append, List.foldl_cons, List.foldl_assoc]
      rfl

theorem ne_nil_of_mapM {f : Input → Option Scalar} {xs : List Scalar} (hne : inputs ≠ [])
    (h : inputs.mapM f = some xs) : xs ≠ [] := by
  rintro rfl
  cases inputs with
  | nil => exact hne rfl
  | cons i r => simp [Option.bind_eq_some_iff] at h

theorem liveLeast_append (ha : as ≠ []) (hb : bs ≠ []) :
    liveLeast mode read (as ++ bs) =
      (liveLeast mode read as).bind fun x => (liveLeast mode read bs).map (Scalar.min x) := by
  unfold liveLeast
  rw [List.mapM_append]
  cases hxs : as.mapM fun i : Input => i.live mode (read i) with
  | none => rfl
  | some xs =>
    cases hys : bs.mapM fun i : Input => i.live mode (read i) with
    | none => simp
    | some ys => exact weakest?_append (ne_nil_of_mapM ha hxs) (ne_nil_of_mapM hb hys)

end Network

namespace Library

open Network (liveBlend expression?)

variable {l : Library} {c : Pose} {t : Unfolding} {part : String} {inputs : List Input}

def Collects (l : Library) (part : String) (inputs : List Input) : Prop :=
  match l.part? part with
  | none => inputs = []
  | some p => l.inputs p = .ok inputs

theorem collects_of_unfolds (hnames : l.names.Nodup) (h : l.Unfolds (l.part? part) t) :
    l.Collects part t.inputs := by
  unfold Collects
  cases hp : l.part? part with
  | none =>
    rw [hp] at h
    rw [h.unique .missing]
    rfl
  | some p =>
    rw [hp] at h
    exact inputs_of_unfolds hnames (mem_of_part? hp) h

theorem Collects.unique {xs ys : List Input} (h : l.Collects part xs) (h' : l.Collects part ys) :
    xs = ys := by
  unfold Collects at h h'
  cases hp : l.part? part with
  | none => rw [hp] at h h'; rw [h, h']
  | some p => rw [hp] at h h'; exact Except.ok.inj (h.symm.trans h')

theorem inputs_combo (hnames : l.names.Nodup) (hc : c ∈ l.poses) (hk : c.kind = .combo)
    (hfree : ¬l.ReachesCycle c) :
    ∃ as bs, l.Collects c.partA as ∧ l.Collects c.partB bs ∧ l.inputs c = .ok (as ++ bs) := by
  obtain ⟨t, ht⟩ := exists_unfolds hnames hc hfree
  have hin := inputs_of_unfolds hnames hc ht
  cases ht with
  | leaf hk' => exact absurd (hk.symm.trans hk') nofun
  | @combo _ first second _ ha hb =>
    refine ⟨first.inputs, second.inputs, collects_of_unfolds hnames ha,
      collects_of_unfolds hnames hb, ?_⟩
    rw [hin, Unfolding.inputs, Unfolding.leaves, List.filterMap_append]
    rfl

/-- A combo that reaches no cycle is a gate. Its blend and those of its parts can be read back. When
both parts collect inputs it has a value on live readings just when both of their blends have one,
and then the lesser of the two; when one part collects none its blend is that of the other. -/
theorem combo_blend_min (mode : BlendMode) (l : Library) (c : Pose) (hnames : l.names.Nodup)
    (hc : c ∈ l.poses) (hk : c.kind = .combo) (hfree : ¬l.ReachesCycle c)
    (hfin : ∀ inputs, l.inputs c = .ok inputs → ∀ i ∈ inputs, i.IsFinite) :
    ∃ as bs cs, l.Collects c.partA as ∧ l.Collects c.partB bs ∧ l.inputs c = .ok cs ∧
      (∀ inputs ∈ [as, bs, cs], inputs ≠ [] →
        ∃ text e, expression? mode inputs = some text ∧ Expr.parse text = .ok e) ∧
      ∀ read : Input → Option Scalar,
        (as ≠ [] → bs ≠ [] →
          ((∃ z, liveBlend mode read cs = some (.ok z)) ↔
            (∃ x, liveBlend mode read as = some (.ok x)) ∧
              ∃ y, liveBlend mode read bs = some (.ok y)) ∧
          ∀ x y, liveBlend mode read as = some (.ok x) → liveBlend mode read bs = some (.ok y) →
            liveBlend mode read cs = some (.ok (Scalar.min x y))) ∧
        (as = [] → liveBlend mode read cs = liveBlend mode read bs) ∧
        (bs = [] → liveBlend mode read cs = liveBlend mode read as) := by
  obtain ⟨as, bs, ha, hb, hin⟩ := inputs_combo hnames hc hk hfree
  have hfinite := hfin _ hin
  obtain ⟨hfinA, hfinB⟩ := List.forall_mem_append.mp hfinite
  refine ⟨as, bs, as ++ bs, ha, hb, hin, ?_, fun read => ⟨fun hneA hneB => ?_, ?_, ?_⟩⟩
  · intro inputs hmem hne
    have hinputs : ∀ i ∈ inputs, i.IsFinite := by
      simp only [List.mem_cons, List.not_mem_nil, or_false] at hmem
      rcases hmem with rfl | rfl | rfl
      · exact hfinA
      · exact hfinB
      · exact hfinite
    obtain ⟨text, htext, hparse⟩ := Network.parse_expression? mode hne hinputs
    exact ⟨text, _, htext, hparse⟩
  · have hneC : as ++ bs ≠ [] := fun h => hneA (List.append_eq_nil_iff.mp h).1
    simp only [Network.liveBlend_eq_ok hneA hfinA, Network.liveBlend_eq_ok hneB hfinB,
      Network.liveBlend_eq_ok hneC hfinite, Network.liveLeast_append hneA hneB]
    constructor
    · cases Network.liveLeast mode read as <;> cases Network.liveLeast mode read bs <;> simp
    · intro x y hx hy
      rw [hx, hy, Option.bind_some, Option.map_some]
  · rintro rfl
    rfl
  · rintro rfl
    rw [List.append_nil]

theorem combo_blend_min_frown :
    ∃ as bs cs x y, browLibrary.Collects "Worry" as ∧ browLibrary.Collects "Up" bs ∧
      browLibrary.inputs (.ofParts "Frown" "Worry" "Up") = .ok cs ∧
      liveBlend .floored (fun i => some i.high) as = some (.ok x) ∧
      liveBlend .floored (fun i => some i.high) bs = some (.ok y) ∧
      liveBlend .floored (fun i => some i.high) cs = some (.ok (Scalar.min x y)) := by
  have hnames : browLibrary.names.Nodup := by decide
  have hmem : .ofParts "Frown" "Worry" "Up" ∈ browLibrary.poses := by simp [browLibrary]
  have hup : browLibrary.Unfolds (browLibrary.part? "Up") (.leaf upPose) := .leaf rfl
  have hfrown : browLibrary.Unfolds (some (.ofParts "Frown" "Worry" "Up"))
      (.combo (.ofParts "Frown" "Worry" "Up") worryTree (.leaf upPose)) :=
        .combo rfl unfolds_worry hup
  have hfin : ∀ i ∈ worryTree.inputs ++ (Unfolding.leaf upPose).inputs, i.IsFinite := by
    have hends : ∀ i ∈ worryTree.inputs ++ (Unfolding.leaf upPose).inputs,
        Scalar.isFinite i.low = true ∧ Scalar.isFinite i.high = true := by decide
    exact fun i hi => ⟨(hends i hi).1, (hends i hi).2⟩
  obtain ⟨hfinA, hfinB⟩ := List.forall_mem_append.mp hfin
  have hcs := inputs_of_unfolds hnames hmem hfrown
  obtain ⟨as, bs, cs, ha, hb, hc, -, hlive⟩ :=
    combo_blend_min .floored browLibrary
      (.ofParts "Frown" "Worry" "Up") hnames hmem rfl hfrown.acyclic
      fun cs h => Except.ok.inj (hcs.symm.trans h) ▸ hfin
  obtain rfl := ha.unique (collects_of_unfolds hnames unfolds_worry)
  obtain rfl := hb.unique (collects_of_unfolds hnames hup)
  have hneA : worryTree.inputs ≠ [] := List.cons_ne_nil _ _
  have hneB : (Unfolding.leaf upPose).inputs ≠ [] := List.cons_ne_nil _ _
  have hx : liveBlend .floored (fun i => some i.high) worryTree.inputs = some (.ok _) :=
    (Network.liveBlend_eq_ok hneA hfinA).mpr rfl
  have hy :
      liveBlend .floored (fun i => some i.high) (Unfolding.leaf upPose).inputs = some (.ok _) :=
    (Network.liveBlend_eq_ok hneB hfinB).mpr rfl
  exact ⟨_, _, _, _, _, ha, hb, hc, hx, hy, ((hlive _).1 hneA hneB).2 _ _ hx hy⟩

end Library

end PoseRig
