import PoseRig.Json.Basic

/-!
# Writing json text

Quotes, backslashes and control characters are escaped; a real is written as digits and a power of
ten.
-/

set_option autoImplicit false

namespace PoseRig.Json

def hexDigit (n : Nat) : Char := Nat.digitChar (n % 16)

def escape (c : Char) : List Char :=
  if c = '"' then ['\\', '"']
  else if c = '\\' then ['\\', '\\']
  else if c.toNat < 0x20 then ['\\', 'u', '0', '0', hexDigit (c.toNat / 16), hexDigit c.toNat]
  else [c]

def quote (s : String) : String :=
  "\"" ++ String.ofList (s.toList.flatMap escape) ++ "\""

def decimalText (d : Decimal) : String :=
  (if d.negative then "-" else "") ++ toString d.digits ++ "e" ++ toString d.exponent

def between (first last : Char) (parts : List String) : String :=
  first.toString ++ ",".intercalate parts ++ last.toString

mutual

def print : Json → String
  | .null => "null"
  | .bool b => if b then "true" else "false"
  | .int i => toString i
  | .real d => decimalText d
  | .str s => quote s
  | .arr items => between '[' ']' (printItems items)
  | .obj fields => between '\x7b' '\x7d' (printFields fields)

def printItems : List Json → List String
  | [] => []
  | j :: r => print j :: printItems r

def printFields : List (String × Json) → List String
  | [] => []
  | (name, j) :: r => (quote name ++ ":" ++ print j) :: printFields r

end

end PoseRig.Json
