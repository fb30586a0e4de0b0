import PoseRig.Number.Decimal
import PoseRig.Number.Text
import PoseRig.Text.Blank

/-!
# Tokens of driver expressions

Numbers, names and eight marks; blank characters separate and are dropped. A number is a run of
digits and points with an exponent only where a digit follows the exponent mark; a run that is no
numeral is an error of its own.
-/

set_option autoImplicit false

namespace PoseRig

inductive Token where
  | number (x : Scalar)
  | name (s : String)
  | plus
  | minus
  | star
  | slash
  | opening
  | closing
  | comma
  deriving Repr

inductive ExprError where
  | badNumber (text : String)
  | unexpectedChar (c : Char) (position : Nat)
  | empty
  | unexpectedToken (t : Token)
  | unexpectedEnd
  | unclosedGroup (found : Option Token)
  | unclosedArguments (found : Option Token)
  | trailing (t : Token)
  | unknownVariable (name : String)
  | divisionByZero
  | arity (function expected : String) (got : Nat)
  | unknownFunction (name : String)
  deriving Repr

namespace Token

def text : Token → String
  | .number x => "Number(" ++ x.text ++ ")"
  | .name s => "Ident(\"" ++ s ++ "\")"
  | .plus => "Plus"
  | .minus => "Minus"
  | .star => "Star"
  | .slash => "Slash"
  | .opening => "LParen"
  | .closing => "RParen"
  | .comma => "Comma"

def textOrNone : Option Token → String
  | none => "None"
  | some t => "Some(" ++ t.text ++ ")"

def mark? : Char → Option Token
  | '+' => some .plus
  | '-' => some .minus
  | '*' => some .star
  | '/' => some .slash
  | '(' => some .opening
  | ')' => some .closing
  | ',' => some .comma
  | _ => none

def isNumeral (c : Char) : Bool := c.isDigit || c == '.'

def isNameStart (c : Char) : Bool := c.isAlpha || c == '_'

def isNameChar (c : Char) : Bool := c.isAlphanum || c == '_'

def exponentSign : List Char → List Char × List Char
  | '-' :: r => (['-'], r)
  | '+' :: r => (['+'], r)
  | r => ([], r)

/-- The exponent at the start of the characters, empty when no digit follows the mark, and the
rest. -/
def exponent (cs : List Char) : List Char × List Char :=
  match cs with
  | [] => ([], [])
  | m :: r =>
    if m = 'e' ∨ m = 'E' then
      let (sign, ds) := exponentSign r
      let digits := ds.takeWhile Char.isDigit
      if digits.isEmpty then ([], cs) else (m :: sign ++ digits, ds.dropWhile Char.isDigit)
    else ([], cs)

theorem exponentSign_length (cs : List Char) : (exponentSign cs).2.length ≤ cs.length := by
  unfold exponentSign
  split <;> simp

theorem exponent_length (cs : List Char) : (exponent cs).2.length ≤ cs.length := by
  unfold exponent
  split
  · simp
  · rename_i m r
    split
    · simp only
      split
      · simp
      · have h₁ := (List.dropWhile_sublist Char.isDigit (l := (exponentSign r).2)).length_le
        have h₂ := exponentSign_length r
        simp only [List.length_cons]; omega
    · simp

/-- The tokens of the last characters of a text of `total` characters. -/
def scan (total : Nat) (cs : List Char) : Except ExprError (List Token) :=
  match cs with
  | [] => .ok []
  | c :: r =>
    match mark? c with
    | some t =>
      match scan total r with
      | .ok ts => .ok (t :: ts)
      | .error e => .error e
    | none =>
      if Text.isBlank c then scan total r
      else if isNumeral c then
        let body := c :: r.takeWhile isNumeral
        let tail := exponent (r.dropWhile isNumeral)
        match Decimal.ofChars? (body ++ tail.1) with
        | none => .error (.badNumber (String.ofList (body ++ tail.1)))
        | some d =>
          match scan total tail.2 with
          | .ok ts => .ok (.number d.toScalar :: ts)
          | .error e => .error e
      else if isNameStart c then
        match scan total (r.dropWhile isNameChar) with
        | .ok ts => .ok (.name (String.ofList (c :: r.takeWhile isNameChar)) :: ts)
        | .error e => .error e
      else .error (.unexpectedChar c (total - (r.length + 1)))
termination_by cs.length
decreasing_by
  · simp
  · simp
  · have h₁ := exponent_length (r.dropWhile isNumeral)
    have h₂ := (List.dropWhile_sublist isNumeral (l := r)).length_le
    simp only [List.length_cons]; omega
  · have h := (List.dropWhile_sublist isNameChar (l := r)).length_le
    simp only [List.length_cons]; omega

def tokenize (s : String) : Except ExprError (List Token) := scan s.toList.length s.toList

end Token

def ExprError.message : ExprError → String
  | .badNumber text => s!"bad number '{text}': invalid float literal"
  | .unexpectedChar c position => s!"unexpected character '{c}' at {position}"
  | .empty => "empty expression"
  | .unexpectedToken t => "unexpected token " ++ t.text
  | .unexpectedEnd => "unexpected end of expression"
  | .unclosedGroup found => "expected ')' after expression, found " ++ Token.textOrNone found
  | .unclosedArguments found => "expected ')' after arguments, found " ++ Token.textOrNone found
  | .trailing t => "unexpected trailing token " ++ t.text
  | .unknownVariable name => s!"unknown variable '{name}'"
  | .divisionByZero => "division by zero"
  | .arity function expected got => s!"{function}() takes {expected} argument(s), got {got}"
  | .unknownFunction name => s!"unknown function '{name}'"

end PoseRig
