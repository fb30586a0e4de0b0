import PoseRig.Number.Binary

/-!
# Scalars

Every real of a document is single precision. A scalar is taken apart into sign, mantissa and
exponent, so that rounding to decimal places is exact integer arithmetic.
-/

set_option autoImplicit false

namespace PoseRig

abbrev Scalar := Float32

/-- What the bits of a scalar stand for; a finite one is `± mantissa * 2 ^ exponent`. -/
inductive ScalarClass where
  | nan
  | infinite (negative : Bool)
  | finite (negative : Bool) (mantissa : Nat) (exponent : Int)

namespace Scalar

def signBit : Nat := 0x80000000

def magnitude (x : Scalar) : Nat := x.toBits.toNat % signBit

def isNegative (x : Scalar) : Bool := decide (signBit ≤ x.toBits.toNat)

def classify (x : Scalar) : ScalarClass :=
  let bits := magnitude x
  if bits < Binary.single.infinity then
    let (m, e) := Binary.single.decode bits
    .finite (isNegative x) m e
  else if bits = Binary.single.infinity then .infinite (isNegative x)
  else .nan

def ofMagnitude (negative : Bool) (bits : Nat) : Scalar :=
  Float32.ofBits (UInt32.ofNat (if negative then bits + signBit else bits))

def ofInteger (i : Int) : Scalar :=
  ofMagnitude (decide (i < 0)) (Binary.single.ofRatio i.natAbs 1)

def doubleMultiple (factor m : Nat) (e : Int) : Nat × Int :=
  Binary.double.decode (Binary.double.ofScaled (m * factor) e)

def roundedMultiple (factor m : Nat) (e : Int) : Nat :=
  let (n, d) := Binary.scaled (m * factor) 1 (-e)
  Binary.roundHalfUp n d

def signed (negative : Bool) (n : Nat) : Int := if negative then -(n : Int) else (n : Int)

/-- The exact value times `factor`, rounded half away from zero; `none` for NaN and infinities. -/
def roundTimes? (factor : Nat) (x : Scalar) : Option Int :=
  match classify x with
  | .finite negative m e => some (signed negative (roundedMultiple factor m e))
  | _ => none

def isFinite (x : Scalar) : Bool := decide (magnitude x < Binary.single.infinity)

/-- The lesser of two scalars; NaN counts as absent, and of two equal ones the first is kept. -/
def min (a b : Scalar) : Scalar :=
  if a.isNaN then b else if b.isNaN then a else if b < a then b else a

def max (a b : Scalar) : Scalar :=
  if a.isNaN then b else if b.isNaN then a else if a < b then b else a

end Scalar

end PoseRig
