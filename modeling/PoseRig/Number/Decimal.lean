import PoseRig.Number.Scalar

/-!
# Decimal numerals

A numeral is a sign, a natural number of digits and a power of ten. A stored number passes through
double precision on its way to a scalar; a number written in an expression is rounded once.
-/

set_option autoImplicit false

namespace PoseRig

/-- The value `± digits * 10 ^ exponent`. -/
structure Decimal where
  negative : Bool
  digits : Nat
  exponent : Int
  deriving DecidableEq, Repr

namespace Decimal

def natOfDigits (cs : List Char) : Nat :=
  cs.foldl (fun n c => 10 * n + (c.toNat - 48)) 0

def ofParts (negative : Bool) (whole fraction : List Char) (exponent : Int) : Decimal :=
  ⟨negative, natOfDigits (whole ++ fraction), exponent - fraction.length⟩

def toScalar (d : Decimal) : Scalar :=
  .ofMagnitude d.negative (Binary.single.ofDecimal d.digits d.exponent)

def isFinite (d : Decimal) : Bool :=
  Binary.double.ofDecimal d.digits d.exponent != Binary.double.infinity

/-- A numeral rounded to the nearest double and that to the nearest scalar. -/
def toScalarViaDouble (d : Decimal) : Scalar :=
  let bits := Binary.double.ofDecimal d.digits d.exponent
  if bits = Binary.double.infinity then .ofMagnitude d.negative Binary.single.infinity
  else
    let (m, e) := Binary.double.decode bits
    .ofMagnitude d.negative (Binary.single.ofScaled m e)

def splitExponent (cs : List Char) : Option (Bool × List Char) :=
  match cs with
  | '-' :: r => if r.isEmpty then none else some (true, r)
  | '+' :: r => if r.isEmpty then none else some (false, r)
  | r => if r.isEmpty then none else some (false, r)

/-- Reads an unsigned numeral such as `1`, `.5`, `2.`, `1e-05`: at most one point, at least one
digit around it, and an optional exponent. -/
def ofChars? (cs : List Char) : Option Decimal :=
  let isMark := fun c : Char => c == 'e' || c == 'E'
  let body := cs.takeWhile (fun c => !isMark c)
  let tail := cs.dropWhile (fun c => !isMark c)
  let whole := body.takeWhile Char.isDigit
  let fraction? := match body.dropWhile Char.isDigit with
    | [] => some []
    | '.' :: r => if r.all Char.isDigit then some r else none
    | _ => none
  let exponent? := match tail with
    | [] => some 0
    | _ :: r => match splitExponent r with
      | some (negative, ds) =>
        if ds.all Char.isDigit then some (Scalar.signed negative (natOfDigits ds)) else none
      | none => none
  match fraction?, exponent? with
  | some fraction, some exponent =>
    if whole.isEmpty && fraction.isEmpty then none
    else some (ofParts false whole fraction exponent)
  | _, _ => none

end Decimal

end PoseRig
