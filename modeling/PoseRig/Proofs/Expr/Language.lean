import PoseRig.Proofs.Expr.Grammar

/-!
# The language of the expression parser

Climbing in precedence reads nothing that the grammar does not derive, and it always gives an
answer, so the parser accepts the derivable lists of tokens and no other. The induction is on the
number of tokens, for every precedence at once. What carries it through a climb is that the left
operand is derived at some precedence and that no operator which binds more tightly than this one
comes next.
-/

set_option autoImplicit false

namespace PoseRig.Expr

def Level.ofPrecedence : Nat → Level
  | 0 | 1 => .sum
  | 2 => .product
  | _ + 3 => .signed

variable {n k lowest : Nat} {t : Token} {op : BinaryOp} {ts us rest : List Token} {e f left : Expr}
  {args : List Expr}

theorem Derives.sum_of_signed (h : Derives .signed ts e) : Derives .sum ts e := .product (.signed h)

theorem Derives.loosen (h : Derives (.ofPrecedence k) ts e) (hlowest : lowest ≤ k) :
    Derives (.ofPrecedence lowest) ts e := by
  match k, lowest, hlowest with
  | 0, 0, _ | 1, 0, _ | 1, 1, _ | 2, 2, _ | _ + 3, _ + 3, _ => exact h
  | 2, 0, _ | 2, 1, _ => exact .product h
  | _ + 3, 2, _ => exact .signed h
  | _ + 3, 0, _ | _ + 3, 1, _ => exact h.sum_of_signed

theorem Derives.join (ht : t.binaryOp? = some op) (h : Derives (.ofPrecedence op.precedence) ts e)
    (h' : Derives (.ofPrecedence (op.precedence + 1)) us f) :
    Derives (.ofPrecedence op.precedence) (ts ++ t :: us) (.binary op e f) := by
  cases op with
  | add | sub => exact .plusOrMinus (sumOp?_eq_some.mpr ⟨ht, rfl⟩) h h'
  | mul | div => exact .times (productOp?_eq_some.mpr ⟨ht, rfl⟩) h h'

theorem stops_or (lowest : Nat) (ts : List Token) :
    Stops lowest ts ∨ ∃ t r op, ts = t :: r ∧ t.binaryOp? = some op ∧ lowest ≤ op.precedence := by
  cases ts with
  | nil => exact Or.inl stops_nil
  | cons t r =>
    cases hop : t.binaryOp? with
    | none => exact Or.inl (stops_cons (by simp [hop]))
    | some op =>
      rcases Nat.lt_or_ge op.precedence lowest with hlt | hle
      · exact Or.inl (stops_cons (by simpa [hop] using hlt))
      · exact Or.inr ⟨t, r, op, rfl, hop, hle⟩

/-- The tokens start with some that derive the expression at the level, before the rest. -/
def Takes (level : Level) (ts : List Token) (e : Expr) (rest : List Token) : Prop :=
  ∃ us, ts = us ++ rest ∧ Derives level us e

/-- Of fewer tokens than these, an expression takes what the grammar derives, as far as it
can go. -/
def SoundBelow (n : Nat) : Prop :=
  ∀ lowest ts e rest, ts.length < n → readExpression lowest ts = .ok (e, rest) →
    Takes (.ofPrecedence lowest) ts e rest ∧ Stops lowest rest

theorem takes_argumentList (hn : SoundBelow n) (ts : List Token) (args : List Expr)
    (hts : ts.length < n) (h : readArgumentList ts = .ok (args, rest)) :
    ∃ parts : List (List Token × Expr), parts ≠ [] ∧ (∀ a ∈ parts, Derives .sum a.1 a.2) ∧
      args = parts.map Prod.snd ∧ ts = separated (parts.map Prod.fst) ++ .closing :: rest := by
  obtain ⟨e, ⟨he, rfl⟩ | ⟨us, more, he, hmore, rfl⟩⟩ := readArgumentList_cases h
  · obtain ⟨⟨vs, rfl, hvs⟩, -⟩ := hn _ _ _ _ hts he
    exact ⟨[(vs, e)], List.cons_ne_nil _ _, List.forall_mem_singleton.mpr hvs, rfl, rfl⟩
  · obtain ⟨⟨vs, rfl, hvs⟩, -⟩ := hn _ _ _ _ hts he
    have hlength : us.length < (vs ++ .comma :: us).length := by
      simp only [List.length_append, List.length_cons]
      omega
    obtain ⟨parts, hne, hparts, rfl, rfl⟩ :=
      takes_argumentList hn us more (Nat.lt_trans hlength hts) hmore
    refine ⟨(vs, e) :: parts, List.cons_ne_nil _ _, List.forall_mem_cons.mpr ⟨hvs, hparts⟩, rfl, ?_⟩
    cases parts with
    | nil => exact absurd rfl hne
    | cons a r => simp [separated]
termination_by ts.length

theorem takes_arguments (hn : SoundBelow n) (hts : ts.length < n)
    (h : readArguments ts = .ok (args, rest)) :
    ∃ parts : List (List Token × Expr), (∀ a ∈ parts, Derives .sum a.1 a.2) ∧
      args = parts.map Prod.snd ∧ ts = separated (parts.map Prod.fst) ++ .closing :: rest := by
  rcases readArguments_cases h with ⟨rfl, rfl⟩ | hlist
  · exact ⟨[], nofun, rfl, rfl⟩
  · obtain ⟨parts, -, hparts⟩ := takes_argumentList hn ts args hts hlist
    exact ⟨parts, hparts⟩

theorem takes_operand (hn : SoundBelow n) (hts : ts.length ≤ n)
    (h : readOperand ts = .ok (e, rest)) : Takes .operand ts e rest := by
  rcases readOperand_cases h with ⟨x, rfl, rfl⟩ | ⟨name, rfl, rfl⟩ | ⟨function, us, args,
    rfl, ha, rfl⟩ |
      ⟨us, rfl, hgroup⟩
  · exact ⟨[.number x], rfl, .number x⟩
  · exact ⟨[.name name], rfl, .var name⟩
  · simp only [List.length_cons] at hts
    obtain ⟨parts, hparts, rfl, rfl⟩ := takes_arguments hn (by omega) ha
    exact ⟨_, by simp, .call function parts hparts⟩
  · obtain ⟨⟨vs, rfl, hvs⟩, -⟩ := hn _ _ _ _ hts hgroup
    exact ⟨_, by simp, .group hvs⟩

theorem takes_signed (hn : SoundBelow n) (hts : ts.length ≤ n)
    (h : readSigned ts = .ok (e, rest)) : Takes .signed ts e rest := by
  induction ts generalizing e with
  | nil =>
    rcases readSigned_cases h with ⟨_, _, ⟨⟩, _⟩ | ⟨_, ⟨⟩, _⟩ | hoperand
    obtain ⟨vs, hvs, hderives⟩ := takes_operand hn hts hoperand
    exact ⟨vs, hvs, .operand hderives⟩
  | cons t r ih =>
    have hr : r.length ≤ n := Nat.le_of_succ_le hts
    rcases readSigned_cases h with ⟨us, f, ⟨⟩, hread, rfl⟩ | ⟨us, ⟨⟩, hread⟩ | hoperand
    · obtain ⟨vs, rfl, hvs⟩ := ih hr hread
      exact ⟨.minus :: vs, rfl, .minus hvs⟩
    · obtain ⟨vs, rfl, hvs⟩ := ih hr hread
      exact ⟨.plus :: vs, rfl, .plus hvs⟩
    · obtain ⟨vs, hvs, hderives⟩ := takes_operand hn hts hoperand
      exact ⟨vs, hvs, .operand hderives⟩

theorem takes_climb (hn : SoundBelow n) (ts us : List Token) (left : Expr) (k : Nat)
    (hts : ts.length ≤ n) (hk : lowest ≤ k) (hleft : Derives (.ofPrecedence k) us left)
    (htight : Stops (k + 1) ts) (h : readClimb lowest left ts = .ok (e, rest)) :
    Takes (.ofPrecedence lowest) (us ++ ts) e rest ∧ Stops lowest rest := by
  rcases stops_or lowest ts with hstop | ⟨t, r, op, rfl, hop, hlowest⟩
  · rw [readClimb_stop left hstop] at h
    cases h
    exact ⟨⟨us, rfl, hleft.loosen hk⟩, hstop⟩
  · rw [readClimb_op left hop hlowest] at h
    obtain ⟨⟨right, r'⟩, hright, hmore⟩ := bind_eq_ok.mp h
    obtain ⟨⟨vs, rfl, hvs⟩, hstop⟩ := hn _ _ _ _ hts hright
    have hprecedence : op.precedence ≤ k := Nat.le_of_lt_succ (htight t rfl op hop)
    have hjoin := Derives.join hop (hleft.loosen hprecedence) hvs
    have hlength : r'.length < (t :: (vs ++ r')).length := by
      simp only [List.length_append, List.length_cons]
      omega
    have hrest := takes_climb hn r' (us ++ t :: vs) (.binary op left right) op.precedence
      (Nat.le_of_lt (Nat.lt_of_lt_of_le hlength hts)) hlowest hjoin hstop hmore
    rwa [List.append_assoc, List.cons_append] at hrest
termination_by ts.length

theorem soundBelow (n : Nat) : SoundBelow n := by
  induction n with
  | zero => exact fun _ _ _ _ hts => absurd hts (Nat.not_lt_zero _)
  | succ n ih =>
    intro lowest ts e rest hts h
    have hts := Nat.le_of_lt_succ hts
    rw [readExpression_eq] at h
    obtain ⟨⟨left, r⟩, hleft, hclimb⟩ := bind_eq_ok.mp h
    obtain ⟨us, rfl, hus⟩ := takes_signed ih hts hleft
    have hr : r.length ≤ n := by
      rw [List.length_append] at hts
      omega
    exact takes_climb ih r us left (lowest + 3) hr (Nat.le_add_right lowest 3) hus
      (stops_of_two_lt (by omega)) hclimb

/-- The parser accepts nothing but derivable lists of tokens. -/
theorem derives_of_ofTokens (h : ofTokens ts = .ok e) : Derives .sum ts e := by
  obtain ⟨⟨us, rfl, hus⟩, -⟩ := soundBelow _ _ _ _ _ (Nat.lt_succ_self _) (ofTokens_eq_ok h)
  rwa [List.append_nil]

theorem ofTokens_iff_derives : ofTokens ts = .ok e ↔ Derives .sum ts e :=
  ⟨derives_of_ofTokens, ofTokens_of_derives⟩

/-- Every list of tokens has an answer: the expression that the grammar derives from it, which is
only one, or a fault when it derives none. A text has the answer of its tokens. -/
theorem parse_iff_derives :
    (∀ ts e, ofTokens ts = .ok e ↔ Derives .sum ts e) ∧
      (∀ ts, (∃ err, ofTokens ts = .error err) ↔ ¬∃ e, Derives .sum ts e) ∧
      (∀ s e, parse s = .ok e ↔ ∃ ts, Token.tokenize s = .ok ts ∧ Derives .sum ts e) ∧
      ∀ s, (∃ err, parse s = .error err) ↔
        ¬∃ e ts, Token.tokenize s = .ok ts ∧ Derives .sum ts e := by
  have htext : ∀ s e, parse s = .ok e ↔ ∃ ts, Token.tokenize s = .ok ts ∧ Derives .sum ts e := by
    intro s e
    simp only [← ofTokens_iff_derives, parse]
    cases Token.tokenize s <;> simp
  refine ⟨fun ts e => ofTokens_iff_derives, fun ts => ?_, htext, fun s => ?_⟩
  · simp only [← ofTokens_iff_derives]
    cases ofTokens ts <;> simp
  · simp only [← htext]
    cases parse s <;> simp

end PoseRig.Expr
