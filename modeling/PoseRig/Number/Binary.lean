/-!
# Binary floating-point formats

A format is given by its stored fraction bits, the exponent of its least positive value and the
bits of its infinity. Magnitudes are handled as bit patterns without the sign: consecutive patterns
are consecutive values, so rounding up to the next binade is a carry.
-/

set_option autoImplicit false

namespace PoseRig.Binary

structure Format where
  fraction : Nat
  least : Int
  infinity : Nat

def single : Format := ⟨23, -149, 0x7F800000⟩

def double : Format := ⟨52, -1074, 0x7FF0000000000000⟩

def roundHalfEven (num den : Nat) : Nat :=
  let q := num / den
  let r := num % den
  if 2 * r < den ∨ (2 * r = den ∧ q % 2 = 0) then q else q + 1

def roundHalfUp (num den : Nat) : Nat :=
  (2 * num + den) / (2 * den)

def scaled (num den : Nat) (e : Int) : Nat × Nat :=
  if 0 ≤ e then (num, den <<< e.toNat) else (num <<< (-e).toNat, den)

/-- The greatest `k` with `2 ^ k ≤ num / den`, for positive arguments. -/
def floorLog2 (num den : Nat) : Int :=
  let k : Int := (Nat.log2 num : Int) - (Nat.log2 den : Int)
  let r := scaled num den k
  if r.2 ≤ r.1 then k else k - 1

namespace Format

def decode (f : Format) (bits : Nat) : Nat × Int :=
  let field := bits >>> f.fraction
  let low := bits % Nat.pow 2 f.fraction
  if field = 0 then (low, f.least) else (low + Nat.pow 2 f.fraction, (field : Int) - 1 + f.least)

/-- A finite value counted in units of the least positive value. -/
def units (f : Format) (bits : Nat) : Nat :=
  let (m, e) := f.decode bits
  m <<< (e - f.least).toNat

/-- The bits nearest to `num / den`, a tie to the even pattern. -/
def ofRatio (f : Format) (num den : Nat) : Nat :=
  if num = 0 then 0
  else
    let e := max (floorLog2 num den - f.fraction) f.least
    let (n, d) := scaled num den e
    min ((e - f.least).toNat <<< f.fraction + roundHalfEven n d) f.infinity

def ofScaled (f : Format) (m : Nat) (e : Int) : Nat :=
  let (n, d) := scaled m 1 (-e)
  f.ofRatio n d

def decimalLength (n : Nat) : Nat := (Nat.toDigits 10 n).length

/-- The bits nearest to `digits * 10 ^ exponent`. Beyond four hundred places on either side every
value of both formats is infinite or zero, so no such power is computed. -/
def ofDecimal (f : Format) (digits : Nat) (exponent : Int) : Nat :=
  let top : Int := decimalLength digits + exponent
  if digits = 0 ∨ top < -400 then 0
  else if 400 < top then f.infinity
  else if 0 ≤ exponent then f.ofRatio (digits * Nat.pow 10 exponent.toNat) 1
  else f.ofRatio digits (Nat.pow 10 (-exponent).toNat)

end Format

end PoseRig.Binary
