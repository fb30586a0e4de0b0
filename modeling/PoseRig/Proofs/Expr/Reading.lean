import PoseRig.Expr.Parser

/-!
# The parser without its termination proofs

Every reading function returns its rest together with a proof that it got shorter. Without the proof
each function is a plain equation in the others, which is all that the language theory needs.
-/

set_option autoImplicit false

namespace PoseRig.Expr

universe u

def bare {α : Type u} {p : List Token → Prop} :
    Except ExprError (α × { r : List Token // p r }) → Except ExprError (α × List Token)
  | .error e => .error e
  | .ok (a, r) => .ok (a, r.1)

theorem bind_eq_ok {α β : Type u} {x : Except ExprError α} {f : α → Except ExprError β} {b : β} :
    x.bind f = .ok b ↔ ∃ a, x = .ok a ∧ f a = .ok b := by
  cases x <;> simp [Except.bind]

theorem bare_eq_ok {α : Type u} {p : List Token → Prop}
    {x : Except ExprError (α × { r : List Token // p r })} {a : α} {rest : List Token} :
    bare x = .ok (a, rest) ↔ ∃ h : p rest, x = .ok (a, ⟨rest, h⟩) := by
  rcases x with err | ⟨a', r, hr⟩
  · simp [bare]
  · simp only [bare, Except.ok.injEq, Prod.mk.injEq, Subtype.mk.injEq]
    constructor
    · rintro ⟨rfl, rfl⟩
      exact ⟨hr, rfl, rfl⟩
    · rintro ⟨-, h⟩
      exact h

def readExpression (lowest : Nat) (ts : List Token) : Except ExprError (Expr × List Token) :=
  bare (expression lowest ts)

def readClimb (lowest : Nat) (left : Expr) (ts : List Token) :
    Except ExprError (Expr × List Token) :=
  bare (climb lowest left ts)

def readSigned (ts : List Token) : Except ExprError (Expr × List Token) := bare (signed ts)

def readOperand (ts : List Token) : Except ExprError (Expr × List Token) := bare (operand ts)

def readArguments (ts : List Token) : Except ExprError (List Expr × List Token) :=
  bare (arguments ts)

def readArgumentList (ts : List Token) : Except ExprError (List Expr × List Token) :=
  bare (argumentList ts)

/-- No operator of at least this precedence comes first. -/
def Stops (lowest : Nat) (ts : List Token) : Prop :=
  ∀ t ∈ ts.head?, ∀ op ∈ t.binaryOp?, op.precedence < lowest

theorem readExpression_eq (lowest : Nat) (ts : List Token) :
    readExpression lowest ts = (readSigned ts).bind fun p => readClimb lowest p.1 p.2 := by
  unfold readExpression readSigned
  rw [expression]
  cases signed ts with
  | error err => rfl
  | ok p =>
    show _ = bare (climb lowest p.1 p.2.1)
    cases h : climb lowest p.1 p.2.1 <;> simp [bare, h]

theorem readClimb_op {lowest : Nat} {t : Token} {op : BinaryOp} (left : Expr)
    (ht : t.binaryOp? = some op) (hop : lowest ≤ op.precedence) (ts : List Token) :
    readClimb lowest left (t :: ts) =
      (readExpression (op.precedence + 1) ts).bind fun p =>
        readClimb lowest (.binary op left p.1) p.2 := by
  unfold readClimb readExpression
  rw [climb]
  simp only [ht, if_neg (Nat.not_lt.mpr hop)]
  cases expression (op.precedence + 1) ts with
  | error err => rfl
  | ok p =>
    show _ = bare (climb lowest (.binary op left p.1) p.2.1)
    cases h : climb lowest (.binary op left p.1) p.2.1 <;> simp [bare, h]

theorem readClimb_stop {lowest : Nat} (left : Expr) {ts : List Token} (h : Stops lowest ts) :
    readClimb lowest left ts = .ok (left, ts) := by
  unfold readClimb
  cases ts with
  | nil =>
    rw [climb]
    rfl
  | cons t r =>
    rw [climb]
    cases ht : t.binaryOp? with
    | none => rfl
    | some op =>
      simp only [if_pos (h t rfl op ht)]
      rfl

theorem readSigned_minus (ts : List Token) :
    readSigned (.minus :: ts) = (readSigned ts).map fun p => (.negate p.1, p.2) := by
  unfold readSigned
  rw [signed]
  cases signed ts <;> rfl

theorem readSigned_plus (ts : List Token) : readSigned (.plus :: ts) = readSigned ts := by
  unfold readSigned
  rw [signed]
  cases signed ts <;> rfl

theorem readSigned_operand {ts : List Token} (hminus : ts.head? ≠ some .minus)
    (hplus : ts.head? ≠ some .plus) : readSigned ts = readOperand ts := by
  unfold readSigned readOperand
  rw [signed]
  · rintro r rfl
    exact hminus rfl
  · rintro r rfl
    exact hplus rfl

theorem readOperand_number (x : Scalar) (ts : List Token) :
    readOperand (.number x :: ts) = .ok (.number x, ts) := by
  rw [readOperand, operand]
  rfl

theorem readOperand_var (name : String) {ts : List Token} (h : ts.head? ≠ some .opening) :
    readOperand (.name name :: ts) = .ok (.var name, ts) := by
  rw [readOperand, operand]
  · rfl
  · rintro r rfl
    exact h rfl

theorem readOperand_call (function : String) (ts : List Token) :
    readOperand (.name function :: .opening :: ts) =
      (readArguments ts).map fun p => (.call function p.1, p.2) := by
  unfold readOperand readArguments
  rw [operand]
  cases arguments ts <;> rfl

theorem readOperand_group {ts rest : List Token} {e : Expr}
    (h : readExpression 1 ts = .ok (e, .closing :: rest)) :
    readOperand (.opening :: ts) = .ok (e, rest) := by
  obtain ⟨hlength, hread⟩ := bare_eq_ok.mp h
  rw [readOperand, operand, hread]
  rfl

theorem readArguments_closing (ts : List Token) :
    readArguments (.closing :: ts) = .ok ([], ts) := by
  rw [readArguments, arguments]
  rfl

theorem readArguments_list {ts : List Token} (h : ts.head? ≠ some .closing) :
    readArguments ts = readArgumentList ts := by
  unfold readArguments readArgumentList
  rw [arguments]
  rintro r rfl
  exact h rfl

theorem readArgumentList_last {ts rest : List Token} {e : Expr}
    (h : readExpression 1 ts = .ok (e, .closing :: rest)) :
    readArgumentList ts = .ok ([e], rest) := by
  obtain ⟨hlength, hread⟩ := bare_eq_ok.mp h
  rw [readArgumentList, argumentList, hread]
  rfl

theorem readArgumentList_cons {ts rest : List Token} {e : Expr}
    (h : readExpression 1 ts = .ok (e, .comma :: rest)) :
    readArgumentList ts = (readArgumentList rest).map fun p => (e :: p.1, p.2) := by
  obtain ⟨hlength, hread⟩ := bare_eq_ok.mp h
  unfold readArgumentList
  rw [argumentList, hread]
  cases hmore : argumentList rest <;> simp [bare, hmore, Except.map]

theorem ofTokens_eq {ts : List Token} {e : Expr} (h : readExpression 1 ts = .ok (e, [])) :
    ofTokens ts = .ok e := by
  obtain ⟨hlength, hread⟩ := bare_eq_ok.mp h
  have hne : ts.isEmpty = false := by
    cases ts with
    | nil => exact absurd hlength (Nat.lt_irrefl 0)
    | cons t r => rfl
  simp [ofTokens, hne, hread]

variable {ts rest : List Token} {e : Expr} {args : List Expr}

theorem readSigned_cases (h : readSigned ts = .ok (e, rest)) :
    (∃ us f, ts = .minus :: us ∧ readSigned us = .ok (f, rest) ∧ e = .negate f) ∨
      (∃ us, ts = .plus :: us ∧ readSigned us = .ok (e, rest)) ∨
      readOperand ts = .ok (e, rest) := by
  rw [readSigned, bare_eq_ok] at h
  obtain ⟨hlength, h⟩ := h
  rw [signed.eq_def] at h
  split at h
  · rename_i us
    split at h
    · cases h
    · rename_i f r hs
      cases h
      exact Or.inl ⟨us, f, rfl, bare_eq_ok.mpr ⟨r.2, hs⟩, rfl⟩
  · rename_i us
    split at h
    · cases h
    · rename_i r hs
      cases h
      exact Or.inr (Or.inl ⟨us, rfl, bare_eq_ok.mpr ⟨r.2, hs⟩⟩)
  · exact Or.inr (Or.inr (bare_eq_ok.mpr ⟨hlength, h⟩))

theorem readOperand_cases (h : readOperand ts = .ok (e, rest)) :
    (∃ x, ts = .number x :: rest ∧ e = .number x) ∨
      (∃ name, ts = .name name :: rest ∧ e = .var name) ∨
      (∃ function us args, ts = .name function :: .opening :: us ∧
        readArguments us = .ok (args, rest) ∧ e = .call function args) ∨
      ∃ us, ts = .opening :: us ∧ readExpression 1 us = .ok (e, .closing :: rest) := by
  rw [readOperand, bare_eq_ok] at h
  obtain ⟨hlength, h⟩ := h
  rw [operand.eq_def] at h
  split at h
  · cases h
  · cases h
    exact Or.inl ⟨_, rfl, rfl⟩
  · rename_i function us
    split at h
    · cases h
    · rename_i args r ha
      cases h
      exact Or.inr (Or.inr (Or.inl ⟨function, us, args, rfl, bare_eq_ok.mpr ⟨r.2, ha⟩, rfl⟩))
  · cases h
    exact Or.inr (Or.inl ⟨_, rfl, rfl⟩)
  · rename_i us
    split at h
    · cases h
    · rename_i e' r hs
      have hread : readExpression 1 us = .ok (e', r.1) := bare_eq_ok.mpr ⟨r.2, hs⟩
      split at h
      · rename_i rest' hr
        cases h
        exact Or.inr (Or.inr (Or.inr ⟨us, rfl, hr ▸ hread⟩))
      · cases h
  · cases h

theorem readArguments_cases (h : readArguments ts = .ok (args, rest)) :
    (ts = .closing :: rest ∧ args = []) ∨ readArgumentList ts = .ok (args, rest) := by
  rw [readArguments, bare_eq_ok] at h
  obtain ⟨hlength, h⟩ := h
  rw [arguments.eq_def] at h
  split at h
  · cases h
    exact Or.inl ⟨rfl, rfl⟩
  · exact Or.inr (bare_eq_ok.mpr ⟨hlength, h⟩)

theorem readArgumentList_cases (h : readArgumentList ts = .ok (args, rest)) :
    ∃ e, (readExpression 1 ts = .ok (e, .closing :: rest) ∧ args = [e]) ∨
      ∃ us more, readExpression 1 ts = .ok (e, .comma :: us) ∧
        readArgumentList us = .ok (more, rest) ∧
        args = e :: more := by
  rw [readArgumentList, bare_eq_ok] at h
  obtain ⟨hlength, h⟩ := h
  rw [argumentList] at h
  split at h
  · cases h
  · rename_i e r hs
    have hread : readExpression 1 ts = .ok (e, r.1) := bare_eq_ok.mpr ⟨r.2, hs⟩
    exists e
    split at h
    · rename_i us hr
      right
      split at h
      · cases h
      · rename_i more r' hmore
        cases h
        exact ⟨us, more, hr ▸ hread, bare_eq_ok.mpr ⟨r'.2, hmore⟩, rfl⟩
    · rename_i us hr
      cases h
      exact Or.inl ⟨hr ▸ hread, rfl⟩
    · cases h

theorem ofTokens_eq_ok (h : ofTokens ts = .ok e) : readExpression 1 ts = .ok (e, []) := by
  unfold ofTokens at h
  split at h
  · cases h
  · split at h
    · cases h
    · rename_i e' r hs
      split at h
      · rename_i hr
        cases h
        exact bare_eq_ok.mpr ⟨hr ▸ r.2, by rw [hs]; simp [← hr]⟩
      · cases h

end PoseRig.Expr
