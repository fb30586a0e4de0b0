import PoseRig.Network.Blend
import PoseRig.Proofs.Expr.Grammar
import PoseRig.Proofs.Expr.Scan
import PoseRig.Proofs.Number.Bits

/-!
# The text of a blend as tokens

The expression of a blend is put together from pieces of text. Each piece scans to the tokens of
what it stands for, whatever follows it, and the tokens of the whole derive one call of `min`.
-/

set_option autoImplicit false

namespace PoseRig

open PoseRig.Expr (Derives separated)
open Token (scan scan_mark scan_blank scan_name scan_numeral Delimited)

variable {total : Nat} {rest : List Char}

namespace Scalar

def tokens (x : Scalar) : List Token :=
  if isNegative x then [.minus, .number (ofMagnitude false (magnitude x))]
  else [.number (ofMagnitude false (magnitude x))]

def literal (x : Scalar) : Expr :=
  if isNegative x then .negate (.number (ofMagnitude false (magnitude x)))
  else .number (ofMagnitude false (magnitude x))

theorem scan_text {x : Scalar} (hx : isFinite x = true) (hrest : Delimited rest) :
    scan total (x.text.toList ++ rest) = (scan total rest).map fun ts => x.tokens ++ ts := by
  have hfin : magnitude x < Binary.single.infinity := of_decide_eq_true hx
  obtain ⟨n, hchars, hvalue⟩ := magnitudeText_numeral hfin
  have hmagnitude : scan total (magnitudeText (magnitude x) ++ rest) =
      (scan total rest).map fun ts => .number (ofMagnitude false (magnitude x)) :: ts := by
    rw [← hchars, scan_numeral n hrest, hvalue]
  have hclass : classify x = .finite (isNegative x) (Binary.single.decode (magnitude x)).1
      (Binary.single.decode (magnitude x)).2 := by
    rw [classify]
    dsimp only
    rw [if_pos hfin]
  unfold text tokens
  rw [hclass]
  dsimp only
  by_cases hneg : isNegative x = true
  · have hsplit : ("-" ++ String.ofList (magnitudeText (magnitude x))).toList ++ rest =
        '-' :: (magnitudeText (magnitude x) ++ rest) := by simp
    rw [if_pos hneg, if_pos hneg, hsplit, scan_mark rfl, hmagnitude]
    cases scan total rest <;> rfl
  · rw [if_neg hneg, if_neg hneg, String.toList_ofList, hmagnitude]
    rfl

theorem derives_literal (x : Scalar) : Derives .product x.tokens x.literal := by
  unfold tokens literal
  split
  · exact .signed (.minus (.operand (.number _)))
  · exact .signed (.operand (.number _))

theorem eval_literal {x : Scalar} (hx : isFinite x = true) (lookup : String → Option Scalar) :
    x.literal.eval lookup = .ok x := by
  have hfin : magnitude x < Binary.single.infinity := of_decide_eq_true hx
  have hself := ofMagnitude_self hx
  unfold literal
  by_cases hneg : isNegative x = true
  · rw [hneg] at hself
    rw [if_pos hneg]
    simp only [Expr.eval]
    rw [neg_ofMagnitude hfin, hself]
  · rw [Bool.not_eq_true] at hneg
    rw [hneg] at hself
    rw [if_neg (by simp [hneg]), hself]
    simp only [Expr.eval]

theorem occurrences_literal (x : Scalar) : x.literal.occurrences = [] := by
  unfold literal
  split <;> simp [Expr.occurrences]

end Scalar

namespace Network

theorem toList_variableName (k : Nat) :
    (variableName k).toList = 'v' :: 'a' :: 'r' :: Nat.toDigits 10 k := by
  rw [variableName, String.toList_append, Nat.toString_eq_repr, Nat.toList_repr]
  rfl

theorem variableName_injective : Function.Injective variableName := by
  intro i j h
  have hlist := congrArg String.toList h
  rw [toList_variableName, toList_variableName] at hlist
  have hdigits : Nat.toDigits 10 i = Nat.toDigits 10 j := by simpa using hlist
  have hnumber := congrArg (fun ds => Nat.ofDigitChars 10 ds 0) hdigits
  simpa using hnumber

theorem scan_variableName (k : Nat) (hrest : Delimited rest) :
    scan total ((variableName k).toList ++ rest) =
      (scan total rest).map fun ts => .name (variableName k) :: ts := by
  have hname : variableName k = String.ofList ('v' :: 'a' :: 'r' :: Nat.toDigits 10 k) := by
    rw [← toList_variableName, String.ofList_toList]
  have hchars : ∀ c ∈ 'a' :: 'r' :: Nat.toDigits 10 k, Token.isNameChar c = true := by
    intro c hc
    simp only [List.mem_cons] at hc
    rcases hc with rfl | rfl | hc
    · rfl
    · rfl
    · have hdigit := Decimal.isDigit_toDigits k c hc
      simp [Token.isNameChar, Char.isAlphanum, hdigit]
  rw [toList_variableName, scan_name rfl hchars hrest, ← hname]

end Network

namespace Input

open Network (variableName scan_variableName)

variable (i : Input) (mode : BlendMode) (name : String)

def readingTokens : List Token :=
  if i.isRotation then [.name "degrees", .opening, .name name, .closing] else [.name name]

def readingExpr : Expr :=
  if i.isRotation then .call "degrees" [.var name] else .var name

theorem scan_readingText (k : Nat) (hrest : Delimited rest) :
    scan total ((i.readingText (variableName k)).toList ++ rest) =
      (scan total rest).map fun ts => i.readingTokens (variableName k) ++ ts := by
  unfold readingText readingTokens
  by_cases hrot : i.isRotation = true
  · rw [if_pos hrot, if_pos hrot]
    have hsplit : ("degrees(" ++ variableName k ++ ")").toList ++ rest =
        'd' :: "egrees".toList ++ ('(' :: ((variableName k).toList ++ (')' :: rest))) := by simp
    rw [hsplit, scan_name rfl (List.all_eq_true.mp rfl) (.cons rfl _), scan_mark rfl,
      scan_variableName k (.cons rfl _), scan_mark rfl]
    cases scan total rest <;> rfl
  · rw [if_neg hrot, if_neg hrot, scan_variableName k hrest]
    rfl

theorem derives_reading : Derives .sum (i.readingTokens name) (i.readingExpr name) := by
  have hvar : Derives .sum [.name name] (.var name) := .product (.signed (.operand (.var name)))
  unfold readingTokens readingExpr
  by_cases hrot : i.isRotation = true
  · rw [if_pos hrot, if_pos hrot]
    have hargs : ∀ a ∈ [([Token.name name], Expr.var name)], Derives .sum a.1 a.2 := by
      intro a ha
      obtain rfl := List.mem_singleton.mp ha
      exact hvar
    exact .product (.signed (.operand (.call "degrees" _ hargs)))
  · rw [if_neg hrot, if_neg hrot]
    exact hvar

def ratioText : String :=
  "(" ++ i.readingText name ++ " - " ++ i.low.text ++ ") / (" ++ i.high.text ++ " - " ++
    i.low.text ++ ")"

def ratioTokens : List Token :=
  .opening :: (i.readingTokens name ++ .minus :: i.low.tokens ++ [.closing]) ++
    .slash :: .opening :: (i.high.tokens ++ .minus :: i.low.tokens ++ [.closing])

def ratioExpr : Expr :=
  .binary .div (.binary .sub (i.readingExpr name) i.low.literal)
    (.binary .sub i.high.literal i.low.literal)

def termTokens : List Token :=
  match mode with
  | .raw => i.ratioTokens name
  | .floored =>
    .name "max" :: .opening :: (separated [[.number 0], i.ratioTokens name] ++ [.closing])

def termExpr : Expr :=
  match mode with
  | .raw => i.ratioExpr name
  | .floored => .call "max" [.number 0, i.ratioExpr name]

theorem derives_ratio : Derives .product (i.ratioTokens name) (i.ratioExpr name) :=
  .times rfl
    (.signed (.operand (.group (.plusOrMinus rfl (i.derives_reading name) i.low.derives_literal))))
    (.operand (.group (.plusOrMinus rfl (.product i.high.derives_literal) i.low.derives_literal)))

theorem derives_term : Derives .sum (i.termTokens mode name) (i.termExpr mode name) := by
  cases mode with
  | raw => exact .product (i.derives_ratio name)
  | floored =>
    have hargs : ∀ a ∈ [([Token.number 0], Expr.number 0), (i.ratioTokens name, i.ratioExpr name)],
        Derives .sum a.1 a.2 := by
      intro a ha
      rcases List.mem_pair.mp ha with rfl | rfl
      · exact .product (.signed (.operand (.number 0)))
      · exact .product (i.derives_ratio name)
    exact .product (.signed (.operand (.call "max" _ hargs)))

structure IsFinite (i : Input) : Prop where
  low : Scalar.isFinite i.low = true
  high : Scalar.isFinite i.high = true

theorem scan_ratioText (hi : i.IsFinite) (k : Nat) (rest : List Char) :
    scan total ((i.ratioText (variableName k)).toList ++ rest) =
      (scan total rest).map fun ts => i.ratioTokens (variableName k) ++ ts := by
  have hsplit : (i.ratioText (variableName k)).toList ++ rest =
      '(' :: ((i.readingText (variableName k)).toList ++ (' ' :: '-' :: ' ' :: (i.low.text.toList ++
        (')' :: ' ' :: '/' :: ' ' :: '(' :: (i.high.text.toList ++ (' ' :: '-' :: ' ' ::
          (i.low.text.toList ++ (')' :: rest)))))))) := by simp [ratioText]
  rw [hsplit, scan_mark rfl, i.scan_readingText k (.cons rfl _), scan_blank,
    scan_mark rfl, scan_blank, Scalar.scan_text hi.low (.cons rfl _), scan_mark rfl, scan_blank,
    scan_mark rfl, scan_blank, scan_mark rfl, Scalar.scan_text hi.high (.cons rfl _), scan_blank,
    scan_mark rfl, scan_blank, Scalar.scan_text hi.low (.cons rfl _), scan_mark rfl]
  cases scan total rest with
  | error e => rfl
  | ok ts => simp [Except.map, ratioTokens]

theorem scan_zero (cs : List Char) :
    scan total ('0' :: ',' :: cs) = (scan total (',' :: cs)).map fun ts => .number 0 :: ts :=
  scan_numeral ⟨['0'], none, none, by simp, List.all_eq_true.mp rfl⟩ (.cons rfl _)

theorem scan_term (hi : i.IsFinite) (k : Nat) (rest : List Char) :
    scan total ((i.term mode (variableName k)).toList ++ rest) =
      (scan total rest).map fun ts => i.termTokens mode (variableName k) ++ ts := by
  cases mode with
  | raw => exact i.scan_ratioText hi k rest
  | floored =>
    have hsplit : (i.term .floored (variableName k)).toList ++ rest =
        'm' :: "ax".toList ++ ('(' :: '0' :: ',' :: ' ' ::
          ((i.ratioText (variableName k)).toList ++ (')' :: rest))) := by
      show ("max(0, " ++ i.ratioText (variableName k) ++ ")").toList ++ rest = _
      simp
    rw [hsplit, scan_name rfl (List.all_eq_true.mp rfl) (.cons rfl _), scan_mark rfl, scan_zero,
      scan_mark rfl, scan_blank, i.scan_ratioText hi, scan_mark rfl]
    cases scan total rest with
    | error e => rfl
    | ok ts => simp [Except.map, termTokens, separated]

end Input

namespace Network

variable (mode : BlendMode)

theorem isVariable_of_mem_named {start : Nat} {inputs : List Input} {v : String × Input}
    (h : v ∈ named start inputs) : ∃ k, v.1 = variableName k := by
  induction inputs generalizing start with
  | nil => cases h
  | cons i r ih =>
    rcases List.mem_cons.mp h with rfl | h
    · exact ⟨start, rfl⟩
    · exact ih h

theorem names_named (start : Nat) (inputs : List Input) :
    (named start inputs).map Prod.fst = (List.range' start inputs.length).map variableName := by
  induction inputs generalizing start with
  | nil => rfl
  | cons i r ih => simp [named, ih, List.range'_succ]

theorem inputs_named (start : Nat) (inputs : List Input) :
    (named start inputs).map Prod.snd = inputs := by
  induction inputs generalizing start with
  | nil => rfl
  | cons i r ih => simp [named, ih]

theorem mem_of_mem_named {start : Nat} {inputs : List Input} {v : String × Input}
    (h : v ∈ named start inputs) : v.2 ∈ inputs := by
  rw [← inputs_named start inputs]
  exact List.mem_map_of_mem h

theorem scan_terms {vs : List (String × Input)} (hne : vs ≠ [])
    (h : ∀ v ∈ vs, (∃ k, v.1 = variableName k) ∧ v.2.IsFinite) (rest : List Char) :
    scan total ((", ".intercalate (vs.map fun v => v.2.term mode v.1)).toList ++ rest) =
      (scan total rest).map fun ts => separated
        (vs.map fun v => v.2.termTokens mode v.1) ++ ts := by
  induction vs with
  | nil => exact absurd rfl hne
  | cons v r ih =>
    obtain ⟨⟨k, hk⟩, hv⟩ := h v List.mem_cons_self
    cases r with
    | nil =>
      rw [List.map_singleton, String.intercalate_singleton, hk]
      rw [v.2.scan_term mode hv k]
      simp [separated, hk]
    | cons w r =>
      have hr := ih (List.cons_ne_nil w r) fun u hu => h u (List.mem_cons_of_mem v hu)
      have hsplit :
          (", ".intercalate ((v :: w :: r).map fun v => v.2.term mode v.1)).toList ++ rest =
            (v.2.term mode v.1).toList ++ (',' :: ' ' ::
              ((", ".intercalate ((w :: r).map fun v => v.2.term mode v.1)).toList ++ rest)) := by
        rw [List.map_cons, List.map_cons, String.intercalate_cons_cons]
        simp
      rw [hsplit, hk, v.2.scan_term mode hv k, scan_mark rfl, scan_blank, hr]
      cases scan total rest with
      | error e => rfl
      | ok ts => simp [Except.map, separated, hk]

def blendExpr (inputs : List Input) : Expr :=
  .call "min" ((named 0 inputs).map fun v => v.2.termExpr mode v.1)

theorem derives_blend (inputs : List Input) :
    Derives .sum (.name "min" :: .opening ::
      (separated ((named 0 inputs).map fun v => v.2.termTokens mode v.1) ++ [.closing]))
      (blendExpr mode inputs) := by
  have hcall := Derives.call "min"
    ((named 0 inputs).map fun v => (v.2.termTokens mode v.1, v.2.termExpr mode v.1)) (by
      intro a ha
      obtain ⟨v, _, rfl⟩ := List.mem_map.mp ha
      exact v.2.derives_term mode v.1)
  rw [List.map_map, List.map_map] at hcall
  exact .product (.signed (.operand hcall))

theorem parse_expression? {inputs : List Input} (hne : inputs ≠ [])
    (hfin : ∀ i ∈ inputs, i.IsFinite) :
    ∃ text, expression? mode inputs = some text ∧
      Expr.parse text = .ok (blendExpr mode inputs) := by
  have hnamed : named 0 inputs ≠ [] := by
    intro h
    apply hne
    rw [← inputs_named 0 inputs, h]
    rfl
  have hvars : ∀ v ∈ named 0 inputs, (∃ k, v.1 = variableName k) ∧ v.2.IsFinite := by
    intro v hv
    constructor
    · exact isVariable_of_mem_named hv
    · exact hfin v.2 (mem_of_mem_named hv)
  let body := ", ".intercalate ((named 0 inputs).map fun v => v.2.term mode v.1)
  exists "min(" ++ body ++ ")"
  constructor
  · rw [expression?, if_neg (by simpa using hne)]
  · have htokens : Token.tokenize ("min(" ++ body ++ ")") = .ok (.name "min" :: .opening ::
        (separated ((named 0 inputs).map fun v => v.2.termTokens mode v.1) ++ [.closing])) := by
      have hsplit : ("min(" ++ body ++ ")").toList =
          'm' :: "in".toList ++ ('(' :: (body.toList ++ [')'])) := by simp
      rw [Token.tokenize, hsplit, scan_name rfl (List.all_eq_true.mp rfl) (.cons rfl _),
        scan_mark rfl, scan_terms mode hnamed hvars, scan_mark rfl, scan]
      rfl
    rw [Expr.parse, htokens]
    exact Expr.ofTokens_of_derives (derives_blend mode inputs)

end Network

end PoseRig
