import PoseRig.Expr.Basic

/-!
# Reading driver expressions

Signed operands joined by operators, read by climbing in precedence: after an operand comes whatever
binds at least as tightly as was asked for, folded to the left, and a right operand takes only what
binds more tightly than its operator. Each function returns what is left of the tokens together with
the proof that it is shorter, and the recursion goes down in the length of the tokens, then in the
order of the functions.
-/

set_option autoImplicit false

namespace PoseRig

namespace BinaryOp

def precedence : BinaryOp → Nat
  | .add | .sub => 1
  | .mul | .div => 2

end BinaryOp

namespace Token

def binaryOp? : Token → Option BinaryOp
  | .plus => some .add
  | .minus => some .sub
  | .star => some .mul
  | .slash => some .div
  | _ => none

end Token

namespace Expr

abbrev Shorter (ts : List Token) := { r : List Token // r.length < ts.length }

abbrev NotLonger (ts : List Token) := { r : List Token // r.length ≤ ts.length }

mutual

/-- Operands joined by operators of at least the given precedence. -/
def expression (lowest : Nat) (ts : List Token) : Except ExprError (Expr × Shorter ts) :=
  match signed ts with
  | .error err => .error err
  | .ok (left, r) =>
    match climb lowest left r.1 with
    | .error err => .error err
    | .ok (e, r') => .ok (e, ⟨r'.1, by have := r.2; have := r'.2; omega⟩)
termination_by (ts.length, 2)
decreasing_by
  · exact Prod.Lex.right _ (by omega)
  · exact Prod.Lex.left _ _ r.2

def climb (lowest : Nat) (left : Expr) (ts : List Token) : Except ExprError (Expr × NotLonger ts) :=
  match ts with
  | [] => .ok (left, ⟨[], Nat.le_refl _⟩)
  | t :: rest =>
    match t.binaryOp? with
    | none => .ok (left, ⟨t :: rest, Nat.le_refl _⟩)
    | some op =>
      if op.precedence < lowest then .ok (left, ⟨t :: rest, Nat.le_refl _⟩)
      else
        match expression (op.precedence + 1) rest with
        | .error err => .error err
        | .ok (right, r) =>
          match climb lowest (.binary op left right) r.1 with
          | .error err => .error err
          | .ok (e, r') =>
            .ok (e, ⟨r'.1, by have := r.2; have := r'.2; simp only [List.length_cons]; omega⟩)
termination_by (ts.length, 2)
decreasing_by
  · exact Prod.Lex.left _ _ (by simp)
  · exact Prod.Lex.left _ _ (by have := r.2; simp only [List.length_cons]; omega)

/-- An operand under any number of signs; a plus leaves no trace. -/
def signed (ts : List Token) : Except ExprError (Expr × Shorter ts) :=
  match ts with
  | .minus :: rest =>
    match signed rest with
    | .error err => .error err
    | .ok (e, r) => .ok (.negate e, ⟨r.1, by have := r.2; simp only [List.length_cons]; omega⟩)
  | .plus :: rest =>
    match signed rest with
    | .error err => .error err
    | .ok (e, r) => .ok (e, ⟨r.1, by have := r.2; simp only [List.length_cons]; omega⟩)
  | ts => operand ts
termination_by (ts.length, 1)
decreasing_by
  · exact Prod.Lex.left _ _ (by simp)
  · exact Prod.Lex.left _ _ (by simp)
  · exact Prod.Lex.right _ (by omega)

def operand (ts : List Token) : Except ExprError (Expr × Shorter ts) :=
  match ts with
  | [] => .error .unexpectedEnd
  | .number x :: rest => .ok (.number x, ⟨rest, by simp⟩)
  | .name function :: .opening :: rest =>
    match arguments rest with
    | .error err => .error err
    | .ok (args, r) =>
      .ok (.call function args, ⟨r.1, by have := r.2; simp only [List.length_cons]; omega⟩)
  | .name s :: rest => .ok (.var s, ⟨rest, by simp⟩)
  | .opening :: rest =>
    match expression 1 rest with
    | .error err => .error err
    | .ok (e, r) =>
      match h : r.1 with
      | .closing :: r' =>
        .ok (e, ⟨r', by have := r.2; rw [h] at this; simp only [List.length_cons] at *; omega⟩)
      | found => .error (.unclosedGroup found.head?)
  | t :: _ => .error (.unexpectedToken t)
termination_by (ts.length, 0)
decreasing_by
  · exact Prod.Lex.left _ _ (by simp only [List.length_cons]; omega)
  · exact Prod.Lex.left _ _ (by simp)

def arguments (ts : List Token) : Except ExprError (List Expr × Shorter ts) :=
  match ts with
  | .closing :: rest => .ok ([], ⟨rest, by simp⟩)
  | ts => argumentList ts
termination_by (ts.length, 4)
decreasing_by
  · exact Prod.Lex.right _ (by omega)

def argumentList (ts : List Token) : Except ExprError (List Expr × Shorter ts) :=
  match expression 1 ts with
  | .error err => .error err
  | .ok (e, r) =>
    match h : r.1 with
    | .comma :: rest =>
      match argumentList rest with
      | .error err => .error err
      | .ok (args, r') =>
        .ok (e :: args, ⟨r'.1, by
          have := r.2; have := r'.2; rw [h] at *; simp only [List.length_cons] at *; omega⟩)
    | .closing :: rest =>
      .ok ([e], ⟨rest, by have := r.2; rw [h] at this; simp only [List.length_cons] at *; omega⟩)
    | found => .error (.unclosedArguments found.head?)
termination_by (ts.length, 3)
decreasing_by
  · exact Prod.Lex.right _ (by omega)
  · exact Prod.Lex.left _ _ (by
      have := r.2; rw [h] at this; simp only [List.length_cons] at this; omega)

end

def ofTokens (ts : List Token) : Except ExprError Expr :=
  if ts.isEmpty then .error .empty
  else
    match expression 1 ts with
    | .error err => .error err
    | .ok (e, r) =>
      match r.1 with
      | [] => .ok e
      | t :: _ => .error (.trailing t)

def parse (s : String) : Except ExprError Expr :=
  match Token.tokenize s with
  | .error err => .error err
  | .ok ts => ofTokens ts

end Expr

end PoseRig
