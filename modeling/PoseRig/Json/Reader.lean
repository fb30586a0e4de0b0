import PoseRig.Json.Basic

/-!
# Reading json text

A total reader on characters. Fields of an object are kept in code-point order of their names, and
of two fields with one name the later counts. An integer literal reads as an integer, except `-0`,
which is the real negative zero. A number too large for a finite double is refused, and so is a text
that nests too deeply.
-/

set_option autoImplicit false

namespace PoseRig.Json.Reader

def isSpace (c : Char) : Bool := c == ' ' || c == '\t' || c == '\n' || c == '\r'

def skip (cs : List Char) : List Char := cs.dropWhile isSpace

def hexDigit? (c : Char) : Option Nat :=
  if c.isDigit then some (c.toNat - 48)
  else if 'a' ≤ c ∧ c ≤ 'f' then some (c.toNat - 87)
  else if 'A' ≤ c ∧ c ≤ 'F' then some (c.toNat - 55)
  else none

def hexCode? (a b c d : Char) : Option Nat :=
  match hexDigit? a, hexDigit? b, hexDigit? c, hexDigit? d with
  | some a, some b, some c, some d => some (((a * 16 + b) * 16 + c) * 16 + d)
  | _, _, _, _ => none

def isHighHalf (n : Nat) : Bool := decide (0xD800 ≤ n) && decide (n < 0xDC00)

def isLowHalf (n : Nat) : Bool := decide (0xDC00 ≤ n) && decide (n < 0xE000)

def escaped? (c : Char) : Option Char :=
  match c with
  | '"' => some '"'
  | '\\' => some '\\'
  | '/' => some '/'
  | 'b' => some (Char.ofNat 8)
  | 'f' => some (Char.ofNat 12)
  | 'n' => some '\n'
  | 'r' => some '\r'
  | 't' => some '\t'
  | _ => none

def text (done : List Char) : List Char → Option (String × List Char)
  | '"' :: r => some (String.ofList done.reverse, r)
  | '\\' :: 'u' :: a :: b :: c :: d :: '\\' :: 'u' :: a' :: b' :: c' :: d' :: r =>
    match hexCode? a b c d, hexCode? a' b' c' d' with
    | some hi, some lo =>
      if isHighHalf hi then
        if isLowHalf lo then
          text (Char.ofNat (0x10000 + (hi - 0xD800) * 0x400 + (lo - 0xDC00)) :: done) r
        else none
      else if isLowHalf hi then none
      else text (Char.ofNat hi :: done) ('\\' :: 'u' :: a' :: b' :: c' :: d' :: r)
    | _, _ => none
  | '\\' :: 'u' :: a :: b :: c :: d :: r =>
    match hexCode? a b c d with
    | some n => if isHighHalf n || isLowHalf n then none else text (Char.ofNat n :: done) r
    | none => none
  | '\\' :: c :: r =>
    match escaped? c with
    | some e => text (e :: done) r
    | none => none
  | c :: r => if c == '\\' || decide (c.toNat < 0x20) then none else text (c :: done) r
  | [] => none

def isWhole : List Char → Bool
  | [] => false
  | [_] => true
  | c :: _ => c != '0'

def signChars : List Char → Option Char × List Char
  | '-' :: r => (some '-', r)
  | '+' :: r => (some '+', r)
  | r => (none, r)

def exponent? (cs : List Char) : Option (Option Int × List Char) :=
  match cs with
  | c :: r =>
    if c == 'e' || c == 'E' then
      let (sign, r) := signChars r
      let ds := r.takeWhile Char.isDigit
      if ds.isEmpty then none
      else some (some (Scalar.signed (sign == some '-') (Decimal.natOfDigits ds)),
        r.dropWhile Char.isDigit)
    else some (none, cs)
  | [] => some (none, [])

def fraction? (cs : List Char) : Option (Option (List Char) × List Char) :=
  match cs with
  | '.' :: r =>
    let ds := r.takeWhile Char.isDigit
    if ds.isEmpty then none else some (some ds, r.dropWhile Char.isDigit)
  | _ => some (none, cs)

def unsigned? (negative : Bool) (cs : List Char) : Option (Json × List Char) :=
  let whole := cs.takeWhile Char.isDigit
  if !isWhole whole then none
  else
    match fraction? (cs.dropWhile Char.isDigit) with
    | none => none
    | some (fraction, rest) =>
      match exponent? rest with
      | none => none
      | some (exponent, rest) =>
        let n := Decimal.natOfDigits whole
        let d : Decimal := .ofParts negative whole (fraction.getD []) (exponent.getD 0)
        if !d.isFinite then none
        else if fraction.isNone && exponent.isNone && !(negative && n == 0) then
          some (.int (Scalar.signed negative n), rest)
        else some (.real d, rest)

def number? : List Char → Option (Json × List Char)
  | '-' :: r => unsigned? true r
  | cs => unsigned? false cs

/-- Adds a field in code-point order, replacing one of the same name. -/
def putField (name : String) (j : Json) : List (String × Json) → List (String × Json)
  | [] => [(name, j)]
  | e :: r =>
    if name = e.1 then (name, j) :: r
    else if name < e.1 then (name, j) :: e :: r
    else e :: putField name j r

def keyword? (word : List Char) (j : Json) (cs : List Char) : Option (Json × List Char) :=
  if word.isPrefixOf cs then some (j, cs.drop word.length) else none

mutual

def value : Nat → List Char → Option (Json × List Char)
  | 0, _ => none
  | n + 1, cs =>
    match skip cs with
    | '"' :: r => (text [] r).map fun p => (.str p.1, p.2)
    | '[' :: r =>
      match skip r with
      | ']' :: r => some (.arr [], r)
      | r => items n [] r
    | '\x7b' :: r =>
      match skip r with
      | '\x7d' :: r => some (.obj [], r)
      | r => fields n [] r
    | 't' :: r => keyword? ['r', 'u', 'e'] (.bool true) r
    | 'f' :: r => keyword? ['a', 'l', 's', 'e'] (.bool false) r
    | 'n' :: r => keyword? ['u', 'l', 'l'] .null r
    | r => number? r

def items : Nat → List Json → List Char → Option (Json × List Char)
  | 0, _, _ => none
  | n + 1, done, cs =>
    match value n cs with
    | none => none
    | some (j, r) =>
      match skip r with
      | ',' :: r => items n (j :: done) r
      | ']' :: r => some (.arr (j :: done).reverse, r)
      | _ => none

def fields : Nat → List (String × Json) → List Char → Option (Json × List Char)
  | 0, _, _ => none
  | n + 1, done, cs =>
    match skip cs with
    | '"' :: r =>
      match text [] r with
      | none => none
      | some (name, r) =>
        match skip r with
        | ':' :: r =>
          match value n r with
          | none => none
          | some (j, r) =>
            match skip r with
            | ',' :: r => fields n (putField name j done) r
            | '\x7d' :: r => some (.obj (putField name j done), r)
            | _ => none
        | _ => none
    | _ => none

end

end Reader

def depthLimit : Nat := 127

/-- Reads one value that fills the whole text. Every call either consumes a character or descends
once before the next does, so twice the length bounds the calls. -/
def parse? (s : String) : Option Json :=
  let cs := s.toList
  match Reader.value (2 * cs.length + 2) cs with
  | some (j, r) =>
    if (Reader.skip r).isEmpty && decide (j.depth ≤ depthLimit) then some j else none
  | none => none

end PoseRig.Json
