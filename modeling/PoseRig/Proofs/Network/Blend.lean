import PoseRig.Proofs.Expr.Variables
import PoseRig.Proofs.Network.BlendText

/-!
# What a blend evaluates to

The call that a blend reads as has the numbered variables for its variables. With a reading for each
of them it is the least of the normalized readings, unless a range has no width.
-/

set_option autoImplicit false

namespace PoseRig

namespace Expr

variable {α : Type} {lookup : String → Option Scalar}

theorem evalAll_map {f : α → Expr} {g : α → Scalar} {p : α → Prop} [DecidablePred p]
    {err : ExprError} {as : List α}
    (h : ∀ a ∈ as, (f a).eval lookup = if p a then .error err else .ok (g a)) :
    evalAll lookup (as.map f) = if ∃ a ∈ as, p a then .error err else .ok (as.map g) := by
  induction as with
  | nil => rfl
  | cons a r ih =>
    have hr := ih fun b hb => h b (List.mem_cons_of_mem a hb)
    rw [List.map_cons, evalAll, h a List.mem_cons_self, hr]
    by_cases ha : p a
    · rw [if_pos ha]
      dsimp only
      rw [if_pos ⟨a, List.mem_cons_self, ha⟩]
    · rw [if_neg ha]
      dsimp only
      by_cases hex : ∃ b ∈ r, p b
      · rw [if_pos hex, if_pos (by simpa [ha] using hex)]
      · rw [if_neg hex, if_neg (by simpa [ha] using hex)]
        rfl

theorem occurrencesAll_map {f : α → Expr} {name : α → String} {as : List α}
    (h : ∀ a ∈ as, (f a).occurrences = [name a]) : occurrencesAll (as.map f) = as.map name := by
  rw [occurrencesAll_eq, List.flatMap_map, List.flatMap_congr h, List.map_eq_flatMap]

end Expr

namespace Input

variable (i : Input) (mode : BlendMode) {name : String}
    {lookup : String → Option Scalar} {x : Scalar}

/-- What a term of a blend is worth when its variable reads `x`. -/
def normalized (x : Scalar) : Scalar :=
  let ratio := ((if i.isRotation then x.toDegrees else x) - i.low) / (i.high - i.low)
  match mode with
  | .raw => ratio
  | .floored => Scalar.max 0 ratio

/-- The ends of the range coincide, so that a term divides by zero. -/
def IsFlat : Prop := (i.high - i.low == 0) = true

instance : DecidablePred IsFlat :=
  fun i => inferInstanceAs (Decidable ((i.high - i.low == 0) = true))

theorem eval_reading (hx : lookup name = some x) :
    (i.readingExpr name).eval lookup = .ok (if i.isRotation then x.toDegrees else x) := by
  unfold readingExpr
  by_cases hrot : i.isRotation = true
  · rw [if_pos hrot, if_pos hrot]
    simp [Expr.eval, Expr.evalAll, hx, Expr.applyFunction, Expr.oneArgument]
  · rw [if_neg hrot, if_neg hrot]
    simp [Expr.eval, hx]

theorem eval_ratio (hi : i.IsFinite) (hx : lookup name = some x) :
    (i.ratioExpr name).eval lookup =
      if i.IsFlat then .error .divisionByZero else .ok (i.normalized .raw x) := by
  unfold ratioExpr
  simp only [Expr.eval, i.eval_reading hx, Scalar.eval_literal hi.low, Scalar.eval_literal hi.high,
    BinaryOp.apply]
  rfl

theorem eval_term (hi : i.IsFinite) (hx : lookup name = some x) :
    (i.termExpr mode name).eval lookup =
      if i.IsFlat then .error .divisionByZero else .ok (i.normalized mode x) := by
  cases mode with
  | raw => exact i.eval_ratio hi hx
  | floored =>
    unfold termExpr
    dsimp only
    rw [Expr.eval, Expr.evalAll, Expr.evalAll, i.eval_ratio hi hx]
    by_cases hflat : i.IsFlat
    · rw [if_pos hflat, if_pos hflat]
      rfl
    · rw [if_neg hflat, if_neg hflat]
      rfl

theorem occurrences_term : (i.termExpr mode name).occurrences = [name] := by
  have hreading : (i.readingExpr name).occurrences = [name] := by
    unfold readingExpr
    split <;> simp [Expr.occurrences, Expr.occurrencesAll]
  have hratio : (i.ratioExpr name).occurrences = [name] := by
    simp [ratioExpr, Expr.occurrences, hreading, Scalar.occurrences_literal]
  cases mode with
  | raw => exact hratio
  | floored => simp [termExpr, Expr.occurrences, Expr.occurrencesAll, hratio]

end Input

namespace Network

variable (mode : BlendMode) {inputs : List Input} {lookup : String → Option Scalar}

def weakest? : List Scalar → Option Scalar
  | [] => none
  | x :: r => some (r.foldl Scalar.min x)

theorem named_eq_mapIdx (inputs : List Input) :
    named 0 inputs = inputs.mapIdx fun k i => (variableName k, i) := by
  have h (start : Nat) :
      named start inputs = inputs.mapIdx fun k i => (variableName (start + k), i) := by
    induction inputs generalizing start with
    | nil => rfl
    | cons i r ih =>
      rw [named, ih, List.mapIdx_cons]
      congr 2
      funext k j
      rw [Nat.add_right_comm, Nat.add_assoc]
  simpa using h 0

theorem nodup_names (inputs : List Input) : ((named 0 inputs).map Prod.fst).Nodup := by
  rw [names_named, ← List.range_eq_range']
  exact List.nodup_range.map variableName_injective

theorem lookup_of_mem {β : Type} {vs : List (String × β)} (hnodup : (vs.map Prod.fst).Nodup)
    {v : String × β} (hv : v ∈ vs) : vs.lookup v.1 = some v.2 := by
  induction vs with
  | nil => cases hv
  | cons u r ih =>
    obtain ⟨hu, hr⟩ := List.nodup_cons.mp hnodup
    rcases List.mem_cons.mp hv with rfl | hv
    · exact List.lookup_cons_self
    · have hne : ¬v.1 = u.1 := fun h => hu (h ▸ List.mem_map_of_mem hv)
      rw [List.lookup_cons, beq_eq_false_iff_ne.mpr hne]
      exact ih hr hv

theorem varNames_blendExpr :
    (blendExpr mode inputs).varNames = (List.range inputs.length).map variableName := by
  have hoccurrences : (blendExpr mode inputs).occurrences = (named 0 inputs).map Prod.fst := by
    rw [blendExpr, Expr.occurrences, Expr.occurrencesAll_map fun v _ => v.2.occurrences_term mode]
  rw [Expr.varNames_eq, hoccurrences, FirstOccurrence.eraseDups_of_nodup (nodup_names inputs),
    names_named, ← List.range_eq_range']

/-- With a reading for each variable a blend is the least of the normalized readings. -/
theorem eval_blendExpr (hne : inputs ≠ []) (hfin : ∀ i ∈ inputs, i.IsFinite)
    {read : String × Input → Scalar} (hread : ∀ v ∈ named 0 inputs, lookup v.1 = some (read v)) :
    if ∃ i ∈ inputs, i.IsFlat then (blendExpr mode inputs).eval lookup = .error .divisionByZero
    else ∃ x, (blendExpr mode inputs).eval lookup = .ok x ∧
      weakest? ((named 0 inputs).map fun v => v.2.normalized mode (read v)) = some x := by
  have hflat : (∃ v ∈ named 0 inputs, v.2.IsFlat) ↔ ∃ i ∈ inputs, i.IsFlat := by
    constructor
    · rintro ⟨v, hv, h⟩
      exact ⟨v.2, mem_of_mem_named hv, h⟩
    · rintro ⟨i, hi, h⟩
      rw [← inputs_named 0 inputs] at hi
      obtain ⟨v, hv, rfl⟩ := List.mem_map.mp hi
      exact ⟨v, hv, h⟩
  have hargs := Expr.evalAll_map (p := fun v : String × Input => v.2.IsFlat) fun v hv =>
    v.2.eval_term mode (hfin v.2 (mem_of_mem_named hv)) (hread v hv)
  rw [blendExpr, Expr.eval, hargs]
  by_cases h : ∃ i ∈ inputs, i.IsFlat
  · rw [if_pos h, if_pos (hflat.mpr h)]
  · rw [if_neg h, if_neg (mt hflat.mp h)]
    cases inputs with
    | nil => exact absurd rfl hne
    | cons i r => exact ⟨_, rfl, rfl⟩

/-- A blend reads back: its text parses, the variables of the parsed expression are the numbered
ones that its driver binds, and given a reading for each of them it evaluates to the least
normalized reading from the left, or to a division by zero when some range is flat. -/
theorem blend_reads_weakest (mode : BlendMode) {inputs : List Input} (hne : inputs ≠ [])
    (hfin : ∀ i ∈ inputs, i.IsFinite) :
    ∃ text e, expression? mode inputs = some text ∧ Expr.parse text = .ok e ∧
      e.varNames = (List.range inputs.length).map variableName ∧
      (∀ path, ∃ d, blendDriver? mode inputs path = some d ∧ d.expression = text ∧
        d.vars.map Variable.name = e.varNames) ∧
      ∀ (lookup : String → Option Scalar) (read : Nat → Scalar),
        (∀ k < inputs.length, lookup (variableName k) = some (read k)) →
        if ∃ i ∈ inputs, i.IsFlat then e.eval lookup = .error .divisionByZero
        else ∃ x, e.eval lookup = .ok x ∧
          weakest? (inputs.mapIdx fun k i => i.normalized mode (read k)) = some x := by
  obtain ⟨text, htext, hparse⟩ := parse_expression? mode hne hfin
  refine ⟨text, blendExpr mode inputs, htext, hparse, varNames_blendExpr mode, ?_, ?_⟩
  · intro path
    rw [blendDriver?, htext]
    refine ⟨_, rfl, rfl, ?_⟩
    rw [varNames_blendExpr, List.range_eq_range', ← names_named, List.map_map]
    rfl
  · intro lookup read hread
    have hnamed : ∀ v ∈ named 0 inputs, lookup v.1 = some ((lookup v.1).getD 0) := by
      intro v hv
      rw [named_eq_mapIdx, List.mem_mapIdx] at hv
      obtain ⟨k, hk, rfl⟩ := hv
      rw [hread k hk, Option.getD_some]
    have hvalues : inputs.mapIdx (fun k i => i.normalized mode (read k)) =
        (named 0 inputs).map fun v => v.2.normalized mode ((lookup v.1).getD 0) := by
      rw [List.mapIdx_eq_iff, named_eq_mapIdx]
      intro k
      rw [List.getElem?_map, List.getElem?_mapIdx]
      by_cases hk : k < inputs.length
      · simp [hk, hread k hk]
      · simp [Nat.not_lt.mp hk]
    rw [hvalues]
    exact eval_blendExpr mode hne hfin hnamed

def smileInputs : List Input :=
  [⟨"jaw", "Face", .channel "Jaw" ⟨.rotation, .x⟩ .local .auto, -30, 12.5⟩,
    ⟨"lip", "Face", .channel "Lip" ⟨.location, .y⟩ .local .auto, -0.0, 1e-7⟩,
    ⟨"brow", "Face", .property ⟨[.field "brow"]⟩, 1.5e16, 0⟩]

theorem blend_reads_weakest_smile :
    smileInputs ≠ [] ∧ (∀ i ∈ smileInputs, i.IsFinite) ∧
      ∃ text e x, expression? .floored smileInputs = some text ∧ Expr.parse text = .ok e ∧
        e.varNames = ["var0", "var1", "var2"] ∧ e.eval (fun _ => some 1) = .ok x := by
  have hne : smileInputs ≠ [] := List.cons_ne_nil _ _
  have hfin : ∀ i ∈ smileInputs, i.IsFinite := by
    intro i hi
    simp only [smileInputs, List.mem_cons, List.not_mem_nil, or_false] at hi
    rcases hi with rfl | rfl | rfl <;> exact ⟨by decide, by decide⟩
  have hflat : ¬∃ i ∈ smileInputs, i.IsFlat := by decide
  obtain ⟨text, e, htext, hparse, hvars, -, heval⟩ := blend_reads_weakest .floored hne hfin
  have hone := heval (fun _ => some 1) (fun _ => 1) fun _ _ => rfl
  rw [if_neg hflat] at hone
  obtain ⟨x, hx, -⟩ := hone
  exact ⟨hne, hfin, text, e, x, htext, hparse, hvars, hx⟩

end Network

end PoseRig
