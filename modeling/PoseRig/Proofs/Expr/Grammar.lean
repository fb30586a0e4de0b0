import PoseRig.Proofs.Expr.Reading

/-!
# The grammar of driver expressions

Sums of products of signed operands, both folded to the left. The parser takes every derivable list
of tokens, and what it reads is the derived expression.
-/

set_option autoImplicit false

namespace PoseRig.Expr

inductive Level where
  | sum
  | product
  | signed
  | operand

def separated : List (List Token) → List Token
  | [] => []
  | [ts] => ts
  | ts :: r => ts ++ .comma :: separated r

def sumOp? : Token → Option BinaryOp
  | .plus => some .add
  | .minus => some .sub
  | _ => none

def productOp? : Token → Option BinaryOp
  | .star => some .mul
  | .slash => some .div
  | _ => none

/-- What the grammar lets stand for an expression. A name in front of an opening parenthesis is
always called: nothing that may follow a variable opens one. -/
inductive Derives : Level → List Token → Expr → Prop where
  | number (x : Scalar) : Derives .operand [.number x] (.number x)
  | var (name : String) : Derives .operand [.name name] (.var name)
  | call (function : String) (args : List (List Token × Expr))
      (h : ∀ a ∈ args, Derives .sum a.1 a.2) :
      Derives .operand (.name function :: .opening :: (separated (args.map Prod.fst) ++ [.closing]))
        (.call function (args.map Prod.snd))
  | group {ts : List Token} {e : Expr} (h : Derives .sum ts e) :
      Derives .operand (.opening :: (ts ++ [.closing])) e
  | operand {ts : List Token} {e : Expr} (h : Derives .operand ts e) : Derives .signed ts e
  | minus {ts : List Token} {e : Expr} (h : Derives .signed ts e) :
      Derives .signed (.minus :: ts) (.negate e)
  | plus {ts : List Token} {e : Expr} (h : Derives .signed ts e) : Derives .signed (.plus :: ts) e
  | signed {ts : List Token} {e : Expr} (h : Derives .signed ts e) : Derives .product ts e
  | times {ts us : List Token} {e f : Expr} {t : Token} {op : BinaryOp}
      (ht : productOp? t = some op) (h : Derives .product ts e) (h' : Derives .signed us f) :
      Derives .product (ts ++ t :: us) (.binary op e f)
  | product {ts : List Token} {e : Expr} (h : Derives .product ts e) : Derives .sum ts e
  | plusOrMinus {ts us : List Token} {e f : Expr} {t : Token} {op : BinaryOp}
      (ht : sumOp? t = some op) (h : Derives .sum ts e) (h' : Derives .product us f) :
      Derives .sum (ts ++ t :: us) (.binary op e f)

namespace Derives

variable {level : Level} {ts : List Token} {e : Expr}

theorem head (h : Derives level ts e) : ∃ t r, ts = t :: r ∧ t ≠ .closing := by
  induction h with
  | number x => exact ⟨_, _, rfl, nofun⟩
  | var name => exact ⟨_, _, rfl, nofun⟩
  | call function args h ih => exact ⟨_, _, rfl, nofun⟩
  | group h ih => exact ⟨_, _, rfl, nofun⟩
  | operand h ih => exact ih
  | minus h ih => exact ⟨_, _, rfl, nofun⟩
  | plus h ih => exact ⟨_, _, rfl, nofun⟩
  | signed h ih => exact ih
  | times ht h h' ih ih' =>
    obtain ⟨t, r, rfl, hne⟩ := ih
    exact ⟨t, _, rfl, hne⟩
  | product h ih => exact ih
  | plusOrMinus ht h h' ih ih' =>
    obtain ⟨t, r, rfl, hne⟩ := ih
    exact ⟨t, _, rfl, hne⟩

theorem head_operand (h : Derives .operand ts e) : ∃ t r, ts = t :: r ∧ t.binaryOp? = none := by
  cases h with
  | number x => exact ⟨_, _, rfl, rfl⟩
  | var name => exact ⟨_, _, rfl, rfl⟩
  | call function args h => exact ⟨_, _, rfl, rfl⟩
  | group h => exact ⟨_, _, rfl, rfl⟩

end Derives

section Precedence

variable {lowest : Nat} {t : Token} {op : BinaryOp} {ts : List Token}

theorem sumOp?_eq_some : sumOp? t = some op ↔ t.binaryOp? = some op ∧ op.precedence = 1 := by
  cases t <;> cases op <;> simp [sumOp?, Token.binaryOp?, BinaryOp.precedence]

theorem productOp?_eq_some :
    productOp? t = some op ↔ t.binaryOp? = some op ∧ op.precedence = 2 := by
  cases t <;> cases op <;> simp [productOp?, Token.binaryOp?, BinaryOp.precedence]

theorem stops_nil : Stops lowest [] := nofun

theorem stops_cons (h : ∀ op, t.binaryOp? = some op → op.precedence < lowest) :
    Stops lowest (t :: ts) := by
  rintro u ⟨⟩ op hop
  exact h op hop

theorem stops_of_two_lt (h : 2 < lowest) : Stops lowest ts := by
  rintro t - op -
  cases op <;> simp only [BinaryOp.precedence] <;> omega

end Precedence

/-- What reading at a level does with tokens and whatever follows them, when it may go down to that
level: a product and a sum are the left operand of what is to come, a signed operand is through. -/
def ReadsAs : Level → List Token → Expr → Prop
  | .operand, ts, e => ∀ rest, rest.head? ≠ some .opening → readOperand (ts ++ rest) = .ok (e, rest)
  | .signed, ts, e => ∀ rest, rest.head? ≠ some .opening → readSigned (ts ++ rest) = .ok (e, rest)
  | .product, ts, e => ∀ lowest ≤ 2, ∀ rest, rest.head? ≠ some .opening →
      readExpression lowest (ts ++ rest) = readClimb lowest e rest
  | .sum, ts, e => ∀ lowest ≤ 1, ∀ rest, rest.head? ≠ some .opening → Stops 2 rest →
      readExpression lowest (ts ++ rest) = readClimb lowest e rest

theorem ReadsAs.sum_stop {ts rest : List Token} {e : Expr} {t : Token} (h : ReadsAs .sum ts e)
    (ht : t = .closing ∨ t = .comma) : readExpression 1 (ts ++ t :: rest) = .ok (e, t :: rest) := by
  have hop : t.binaryOp? = none := by rcases ht with rfl | rfl <;> rfl
  have hopening : (t :: rest).head? ≠ some .opening := by rcases ht with rfl | rfl <;> nofun
  have hstops : ∀ lowest, Stops lowest (t :: rest) := fun lowest =>
    stops_cons fun op h => by rw [hop] at h; cases h
  rw [h 1 (Nat.le_refl 1) _ hopening (hstops 2), readClimb_stop e (hstops 1)]

theorem ReadsAs.signed_above {ts rest : List Token} {e : Expr} (h : ReadsAs .signed ts e)
    (hrest : rest.head? ≠ some .opening) : readExpression 3 (ts ++ rest) = .ok (e, rest) := by
  rw [readExpression_eq, h rest hrest]
  exact readClimb_stop e (stops_of_two_lt (by decide))

theorem ReadsAs.product_above {ts rest : List Token} {e : Expr} (h : ReadsAs .product ts e)
    (hrest : rest.head? ≠ some .opening) (hstop : Stops 2 rest) :
    readExpression 2 (ts ++ rest) = .ok (e, rest) := by
  rw [h 2 (Nat.le_refl 2) rest hrest, readClimb_stop e hstop]

theorem readArgumentList_separated {args : List (List Token × Expr)} (hne : args ≠ [])
    (h : ∀ a ∈ args, ReadsAs .sum a.1 a.2) (rest : List Token) :
    readArgumentList (separated (args.map Prod.fst) ++ .closing :: rest) =
      .ok (args.map Prod.snd, rest) := by
  induction args with
  | nil => exact absurd rfl hne
  | cons a r ih =>
    have ha := h a List.mem_cons_self
    cases r with
    | nil => exact readArgumentList_last (ha.sum_stop (Or.inl rfl))
    | cons b r =>
      have hr := ih nofun fun c hc => h c (List.mem_cons_of_mem a hc)
      have hsplit : separated ((a :: b :: r).map Prod.fst) ++ .closing :: rest =
          a.1 ++ .comma :: (separated ((b :: r).map Prod.fst) ++ .closing :: rest) := by
        simp [separated]
      rw [hsplit, readArgumentList_cons (ha.sum_stop (Or.inr rfl)), hr]
      rfl

/-- Every derivation is read. -/
theorem Derives.readsAs {level : Level} {ts : List Token} {e : Expr} (h : Derives level ts e) :
    ReadsAs level ts e := by
  induction h with
  | number x => exact fun rest _ => readOperand_number x rest
  | var name => exact fun rest hrest => readOperand_var name hrest
  | call function args h ih =>
    intro rest hrest
    have hargs : readArguments (separated (args.map Prod.fst) ++ .closing :: rest) =
        .ok (args.map Prod.snd, rest) := by
      cases args with
      | nil => exact readArguments_closing rest
      | cons a r =>
        rw [readArguments_list]
        · exact readArgumentList_separated (List.cons_ne_nil a r) ih rest
        · obtain ⟨t, u, ht, hne⟩ := (h a List.mem_cons_self).head
          cases r <;> simp [separated, ht, hne]
    show readOperand (.name function :: .opening ::
      (separated (args.map Prod.fst) ++ [.closing] ++ rest)) = _
    rw [readOperand_call, List.append_assoc, List.singleton_append, hargs]
    rfl
  | @group ts e h ih =>
    intro rest hrest
    show readOperand (.opening :: (ts ++ [.closing] ++ rest)) = _
    rw [List.append_assoc]
    exact readOperand_group (ih.sum_stop (Or.inl rfl))
  | @operand ts e h ih =>
    intro rest hrest
    obtain ⟨t, r, rfl, ht⟩ := h.head_operand
    rw [readSigned_operand]
    · exact ih rest hrest
    · rintro ⟨⟩
      cases ht
    · rintro ⟨⟩
      cases ht
  | @minus ts e h ih =>
    intro rest hrest
    show readSigned (.minus :: (ts ++ rest)) = _
    rw [readSigned_minus, ih rest hrest]
    rfl
  | @plus ts e h ih =>
    intro rest hrest
    show readSigned (.plus :: (ts ++ rest)) = _
    rw [readSigned_plus, ih rest hrest]
  | signed h ih =>
    intro lowest _ rest hrest
    rw [readExpression_eq, ih rest hrest]
    rfl
  | @times ts us e f t op ht h h' ih ih' =>
    intro lowest hlowest rest hrest
    obtain ⟨hop, hprecedence⟩ := productOp?_eq_some.mp ht
    have hhead : (t :: (us ++ rest)).head? ≠ some .opening := by
      rintro ⟨⟩
      cases ht
    rw [List.append_assoc, List.cons_append, ih lowest hlowest _ hhead,
      readClimb_op e hop (hprecedence ▸ hlowest), hprecedence, ReadsAs.signed_above ih' hrest]
    rfl
  | product h ih => exact fun lowest hlowest rest hrest _ => ih lowest (by omega) rest hrest
  | @plusOrMinus ts us e f t op ht h h' ih ih' =>
    intro lowest hlowest rest hrest hstop
    obtain ⟨hop, hprecedence⟩ := sumOp?_eq_some.mp ht
    have hhead : (t :: (us ++ rest)).head? ≠ some .opening := by
      rintro ⟨⟩
      cases ht
    have hmark : Stops 2 (t :: (us ++ rest)) := stops_cons fun op' hop' => by
      rw [hop] at hop'
      cases hop'
      omega
    rw [List.append_assoc, List.cons_append, ih lowest hlowest _ hhead hmark,
      readClimb_op e hop (hprecedence ▸ hlowest), hprecedence,
        ReadsAs.product_above ih' hrest hstop]
    rfl

theorem ofTokens_of_derives {ts : List Token} {e : Expr} (h : Derives .sum ts e) :
    ofTokens ts = .ok e := by
  apply ofTokens_eq
  have hread := h.readsAs 1 (Nat.le_refl 1) [] nofun stops_nil
  rw [List.append_nil] at hread
  rw [hread, readClimb_stop e stops_nil]

end PoseRig.Expr
