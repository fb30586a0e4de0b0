import PoseRig.Expr.Basic
import PoseRig.Proofs.FirstOccurrence

/-!
# The variables of an expression

A variable stands in an expression at an address, the numbers of the operands to go down to.
Addresses in lexicographic order go through the expression from left to right, and the listed
variables come in the order of the first place of each. Evaluation looks at nothing else: only
listed names are looked up, and a variable that is found unknown is a listed one.
-/

set_option autoImplicit false

namespace PoseRig.Expr

variable {e a : Expr} {es : List Expr} {f g : String → Option Scalar} {name : String}

def operands : Expr → List Expr
  | .number _ => []
  | .var _ => []
  | .negate e => [e]
  | .binary _ left right => [left, right]
  | .call _ args => args

def varAt? : List Nat → Expr → Option String
  | [], .var name => some name
  | [], _ => none
  | i :: address, e => e.operands[i]?.bind (varAt? address)

theorem sizeOf_operand (h : a ∈ e.operands) : sizeOf a < sizeOf e := by
  cases e with
  | number x => cases h
  | var name => cases h
  | negate e =>
    obtain rfl := List.mem_singleton.mp h
    simp
  | binary op left right =>
    simp only [binary.sizeOf_spec]
    rcases List.mem_pair.mp h with rfl | rfl <;> omega
  | call function args =>
    have hlt : sizeOf a < sizeOf args := List.sizeOf_lt_of_mem h
    simp only [call.sizeOf_spec]
    omega

@[elab_as_elim]
theorem inductOperands {motive : Expr → Prop} (var : ∀ name, motive (.var name))
    (other : ∀ e, (∀ name, e ≠ .var name) → (∀ a ∈ e.operands, motive a) → motive e) (e : Expr) :
    motive e := by
  by_cases h : ∃ name, e = .var name
  · obtain ⟨name, rfl⟩ := h
    exact var name
  · refine other e (fun name heq => h ⟨name, heq⟩) fun a ha => ?_
    exact inductOperands var other a
termination_by sizeOf e
decreasing_by exact sizeOf_operand ha

theorem occurrencesAll_eq (es : List Expr) : occurrencesAll es = es.flatMap occurrences := by
  induction es with
  | nil => rfl
  | cons e r ih => rw [occurrencesAll, ih, List.flatMap_cons]

theorem occurrences_eq (h : ∀ name, e ≠ .var name) :
    e.occurrences = e.operands.flatMap occurrences := by
  cases e with
  | number x => rfl
  | var name => exact absurd rfl (h name)
  | negate e => simp [occurrences, operands]
  | binary op left right => simp [occurrences, operands]
  | call function args => rw [occurrences, operands, occurrencesAll_eq]

theorem varAt?_nil (h : ∀ name, e ≠ .var name) : e.varAt? [] = none := by
  cases e with
  | var name => exact absurd rfl (h name)
  | _ => rfl

/-- The occurrences of variables with their addresses, which are all addresses of variables
in order. -/
structure Survey (e : Expr) (places : List (List Nat × String)) : Prop where
  names : places.map Prod.snd = e.occurrences
  ordered : places.Pairwise fun p q => p.1 < q.1
  complete : ∀ p, p ∈ places ↔ e.varAt? p.1 = some p.2

structure OperandSurvey (start : Nat) (es : List Expr)
    (places : List (List Nat × String)) : Prop where
  names : places.map Prod.snd = es.flatMap occurrences
  ordered : places.Pairwise fun p q => p.1 < q.1
  complete : ∀ p, p ∈ places ↔
    ∃ i address, p.1 = (start + i) :: address ∧ es[i]?.bind (varAt? address) = some p.2

theorem OperandSurvey.nil (start : Nat) : OperandSurvey start [] [] := by
  constructor <;> simp

theorem OperandSurvey.cons {start : Nat} {places more : List (List Nat × String)}
    (h : e.Survey places) (hmore : OperandSurvey (start + 1) es more) :
    OperandSurvey start (e :: es) (places.map (fun p => (start :: p.1, p.2)) ++ more) := by
  constructor
  case names =>
    rw [List.map_append, List.map_map, hmore.names, List.flatMap_cons, ← h.names]
    rfl
  case ordered =>
    rw [List.pairwise_append, List.pairwise_map]
    refine ⟨h.ordered.imp fun hlt => ?_, hmore.ordered, ?_⟩
    · exact List.cons_lt_cons_iff.mpr (Or.inr ⟨rfl, hlt⟩)
    · intro p hp q hq
      obtain ⟨p, -, rfl⟩ := List.mem_map.mp hp
      obtain ⟨i, address, haddress, -⟩ := (hmore.complete q).mp hq
      rw [haddress]
      exact List.cons_lt_cons_iff.mpr (Or.inl (by omega))
  case complete =>
    intro p
    rw [List.mem_append, List.mem_map, hmore.complete]
    constructor
    · rintro (⟨p, hp, rfl⟩ | ⟨i, address, haddress, hname⟩)
      · exact ⟨0, p.1, rfl, (h.complete p).mp hp⟩
      · exact ⟨i + 1, address, by rw [haddress, Nat.add_assoc, Nat.add_comm 1], hname⟩
    · rintro ⟨i, address, haddress, hname⟩
      cases i with
      | zero =>
        refine Or.inl ⟨(address, p.2), (h.complete _).mpr hname, ?_⟩
        exact Prod.ext haddress.symm rfl
      | succ i => exact Or.inr ⟨i, address, by rw [haddress, Nat.add_assoc, Nat.add_comm 1], hname⟩

theorem exists_operandSurvey (start : Nat) (h : ∀ e ∈ es, ∃ places, e.Survey places) :
    ∃ places, OperandSurvey start es places := by
  induction es generalizing start with
  | nil => exact ⟨[], .nil start⟩
  | cons e r ih =>
    obtain ⟨⟨places, hplaces⟩, hr⟩ := List.forall_mem_cons.mp h
    obtain ⟨more, hmore⟩ := ih (start + 1) hr
    exact ⟨_, .cons hplaces hmore⟩

theorem survey_var (name : String) : (var name).Survey [([], name)] := by
  constructor
  case names => rfl
  case ordered => exact List.pairwise_singleton _ _
  case complete =>
    rintro ⟨address, other⟩
    cases address <;> simp [varAt?, operands, eq_comm]

theorem exists_survey (e : Expr) : ∃ places, e.Survey places := by
  induction e using inductOperands with
  | var name => exact ⟨_, survey_var name⟩
  | other e hvar ih =>
    obtain ⟨places, hplaces⟩ := exists_operandSurvey 0 ih
    refine ⟨places, hplaces.names.trans (occurrences_eq hvar).symm, hplaces.ordered, ?_⟩
    rintro ⟨address, name⟩
    rw [hplaces.complete]
    cases address with
    | nil => simp [varAt?_nil hvar]
    | cons i address => simp [varAt?]

theorem addName_eq : addName = FirstOccurrence.addNew id id := by
  funext names name
  rw [FirstOccurrence.addNew, List.map_id]
  rfl

theorem varNames_eq (e : Expr) : e.varNames = e.occurrences.eraseDups := by
  rw [varNames, addName_eq, FirstOccurrence.foldl_addNew id id fun _ => rfl]
  simp

theorem mem_varNames : name ∈ e.varNames ↔ name ∈ e.occurrences := by
  rw [varNames_eq, List.mem_eraseDups]

theorem evalAll_congr (h : ∀ e ∈ es, e.eval f = e.eval g) : evalAll f es = evalAll g es := by
  induction es with
  | nil => rfl
  | cons e r ih =>
    obtain ⟨he, hr⟩ := List.forall_mem_cons.mp h
    rw [evalAll, evalAll, he, ih hr]

theorem eval_congr_operands (hvar : ∀ name, e ≠ .var name)
    (h : ∀ a ∈ e.operands, a.eval f = a.eval g) : e.eval f = e.eval g := by
  cases e with
  | number x => rfl
  | var name => exact absurd rfl (hvar name)
  | negate e => rw [eval, eval, h e List.mem_cons_self]
  | binary op left right =>
    rw [eval, eval, h left List.mem_cons_self, h right (List.mem_cons_of_mem _ List.mem_cons_self)]
  | call function args =>
    have hargs : evalAll f args = evalAll g args := evalAll_congr h
    rw [eval, eval, hargs]

theorem eval_congr (h : ∀ name ∈ e.occurrences, f name = g name) : e.eval f = e.eval g := by
  induction e using inductOperands with
  | var name => rw [eval, eval, h name (List.mem_singleton_self name)]
  | other e hvar ih =>
    rw [occurrences_eq hvar] at h
    apply eval_congr_operands hvar
    intro a ha
    exact ih a ha fun name hname => h name (List.mem_flatMap.mpr ⟨a, ha, hname⟩)

theorem apply_ne_unknown (op : BinaryOp) (l r : Scalar) (name : String) :
    op.apply l r ≠ .error (.unknownVariable name) := by
  cases op with
  | div =>
    rw [BinaryOp.apply]
    split <;> nofun
  | _ => nofun

theorem applyFunction_ne_unknown (function : String) (xs : List Scalar) (name : String) :
    applyFunction function xs ≠ .error (.unknownVariable name) := by
  have hone : ∀ f, oneArgument function f xs ≠ .error (.unknownVariable name) := by
    intro f
    unfold oneArgument
    split <;> nofun
  have hfold : ∀ f, foldArguments function f xs ≠ .error (.unknownVariable name) := by
    intro f
    cases xs <;> nofun
  unfold applyFunction
  repeat' split
  all_goals first | exact hone _ | exact hfold _ | nofun

theorem exists_of_evalAll_error {err : ExprError} (h : evalAll f es = .error err) :
    ∃ e ∈ es, e.eval f = .error err := by
  induction es with
  | nil => cases h
  | cons e r ih =>
    rw [evalAll] at h
    split at h
    · rename_i he
      cases h
      exact ⟨e, List.mem_cons_self, he⟩
    · split at h
      · cases h
      · rename_i hr
        cases h
        obtain ⟨a, ha, hea⟩ := ih hr
        exact ⟨a, List.mem_cons_of_mem e ha, hea⟩

theorem exists_unknown_operand (hvar : ∀ name, e ≠ .var name)
    (h : e.eval f = .error (.unknownVariable name)) :
    ∃ a ∈ e.operands, a.eval f = .error (.unknownVariable name) := by
  cases e with
  | number x => cases h
  | var name => exact absurd rfl (hvar name)
  | negate e =>
    rw [eval] at h
    split at h
    · cases h
    · rename_i he
      exact ⟨e, List.mem_cons_self, he.trans h⟩
  | binary op left right =>
    rw [eval] at h
    split at h
    · rename_i hl
      exact ⟨left, List.mem_cons_self, hl.trans h⟩
    · split at h
      · rename_i hr
        exact ⟨right, List.mem_cons_of_mem _ List.mem_cons_self, hr.trans h⟩
      · exact absurd h (apply_ne_unknown _ _ _ _)
  | call function args =>
    rw [eval] at h
    split at h
    · exact absurd h (applyFunction_ne_unknown _ _ _)
    · rename_i hargs
      cases h
      exact exists_of_evalAll_error hargs

theorem unknown_of_eval (h : e.eval f = .error (.unknownVariable name)) :
    name ∈ e.occurrences ∧ f name = none := by
  induction e using inductOperands with
  | var other =>
    rw [eval] at h
    split at h
    · cases h
    · rename_i hnone
      cases h
      exact ⟨List.mem_singleton_self name, hnone⟩
  | other e hvar ih =>
    obtain ⟨a, ha, herror⟩ := exists_unknown_operand hvar h
    obtain ⟨hname, hnone⟩ := ih a ha herror
    rw [occurrences_eq hvar]
    exact ⟨List.mem_flatMap.mpr ⟨a, ha, hname⟩, hnone⟩

/-- What an expression evaluates to, a value or a fault, depends only on what its listed variables
are looked up as, and if each of them is bound none is unknown. The list has the variables that
stand anywhere in the expression, each once, and of two of them the first has a place to the left of
all places of the second. -/
theorem eval_reads_varNames (e : Expr) :
    (∀ f g : String → Option Scalar, (∀ name ∈ e.varNames, f name = g name) → e.eval f = e.eval g) ∧
    (∀ f : String → Option Scalar, (∀ name ∈ e.varNames, (f name).isSome) →
      ∀ name, e.eval f ≠ .error (.unknownVariable name)) ∧
    (∀ name, name ∈ e.varNames ↔ ∃ address, e.varAt? address = some name) ∧
    e.varNames.Nodup ∧
    e.varNames.Pairwise fun m n =>
      ∃ address, e.varAt? address = some m ∧
        ∀ later, e.varAt? later = some n → address < later := by
  obtain ⟨places, hplaces⟩ := exists_survey e
  refine ⟨fun f g h => ?_, fun f h name hunknown => ?_, fun name => ?_, ?_, ?_⟩
  · exact eval_congr fun name hname => h name (mem_varNames.mpr hname)
  · obtain ⟨hname, hnone⟩ := unknown_of_eval hunknown
    have hsome := h name (mem_varNames.mpr hname)
    rw [hnone] at hsome
    cases hsome
  · rw [mem_varNames, ← hplaces.names, List.mem_map]
    constructor
    · rintro ⟨p, hp, rfl⟩
      exact ⟨p.1, (hplaces.complete p).mp hp⟩
    · rintro ⟨address, hname⟩
      exact ⟨(address, name), (hplaces.complete _).mpr hname, rfl⟩
  · rw [varNames_eq]
    exact FirstOccurrence.nodup_eraseDups _
  · rw [varNames_eq, ← hplaces.names]
    refine (FirstOccurrence.pairwise_eraseDups Prod.snd places hplaces.ordered).imp ?_
    rintro m n ⟨p, hp, rfl, hbefore⟩
    refine ⟨p.1, (hplaces.complete p).mp hp, fun later hlater => ?_⟩
    exact hbefore (later, n) ((hplaces.complete _).mpr hlater) rfl

def gapExpr : Expr :=
  .call "min" [.binary .sub (.var "b") (.var "a"), .binary .div (.var "a") (.var "c")]

def allButD (name : String) : Option Scalar := if name = "d" then none else some 1

theorem eval_reads_varNames_gap :
    gapExpr.varNames = ["b", "a", "c"] ∧ gapExpr.eval allButD = gapExpr.eval (fun _ => some 1) ∧
      (∀ name, gapExpr.eval allButD ≠ .error (.unknownVariable name)) ∧
      ∃ address, gapExpr.varAt? address = some "a" ∧ address < [1, 1] := by
  have hnames : gapExpr.varNames = ["b", "a", "c"] := rfl
  obtain ⟨hsame, hbound, -, -, hordered⟩ := eval_reads_varNames gapExpr
  rw [hnames] at hsame hbound hordered
  refine ⟨hnames, hsame allButD _ (by decide), hbound allButD (by decide), ?_⟩
  obtain ⟨-, hrest⟩ := List.pairwise_cons.mp hordered
  obtain ⟨address, haddress, hbefore⟩ := (List.pairwise_cons.mp hrest).1 "c" List.mem_cons_self
  exact ⟨address, haddress, hbefore [1, 1] rfl⟩

end PoseRig.Expr
