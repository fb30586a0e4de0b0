import PoseRig.Number.Scalar

/-!
# Shortest decimal digits

For a finite positive value, the fewest decimal digits that read back to it. A decimal reads back
exactly when it lies between the midpoints to the two neighbouring values, the midpoints included
when the bits are even. For each digit count the two neighbours of the value on that decimal grid
are tested in exact arithmetic; the first count with a hit wins, and of two hits the nearer.
-/

set_option autoImplicit false

namespace PoseRig.Binary.Format

/-- The exponent `t` with `10 ^ (t - 1) ≤ num / den < 10 ^ t`, where `den` is a power of two. -/
def decimalTop (num den : Nat) : Int :=
  if den ≤ num then (decimalLength (num / den) : Int)
  else 1 - (decimalLength (den / num) : Int)

def overPowerOfTen (num den : Nat) (k : Int) : Nat × Nat :=
  if 0 ≤ k then (num, den * Nat.pow 10 k.toNat) else (num * Nat.pow 10 (-k).toNat, den)

def readsBack (f : Format) (bits d : Nat) (k : Int) : Bool :=
  let low := f.units (bits - 1) + f.units bits
  let high := f.units bits + f.units (bits + 1)
  let (x, unit) := overPowerOfTen (d <<< ((-f.least).toNat + 1)) 1 (-k)
  if bits % 2 = 0 then decide (low * unit ≤ x) && decide (x ≤ high * unit)
  else decide (low * unit < x) && decide (x < high * unit)

/-- The nearer of the value's two neighbours on the grid of multiples of `10 ^ k` among those that
read back, a tie going up. -/
def gridHit? (f : Format) (bits : Nat) (k : Int) : Option Nat :=
  let (num, den) := overPowerOfTen (f.units bits) (Nat.pow 2 (-f.least).toNat) k
  let q := num / den
  let r := num % den
  match f.readsBack bits q k, f.readsBack bits (q + 1) k with
  | true, true => some (if 2 * r < den then q else q + 1)
  | true, false => some q
  | false, true => some (q + 1)
  | false, false => none

def stripZeros : Nat → Nat → Int → Nat × Int
  | 0, d, k => (d, k)
  | n + 1, d, k => if d % 10 = 0 then stripZeros n (d / 10) (k + 1) else (d, k)

/-- Digits and power of ten of the shortest decimal for a positive finite pattern. Seventeen
digits suffice for either format. -/
def shortest (f : Format) (bits : Nat) : Nat × Int :=
  let top := decimalTop (f.units bits) (Nat.pow 2 (-f.least).toNat)
  let hit := (List.range 17).findSome? fun (i : Nat) =>
    let k : Int := top - (i + 1 : Nat)
    (f.gridHit? bits k).map fun d => (d, k)
  match hit with
  | some (d, k) => stripZeros (decimalLength d) d k
  | none => (f.units bits, f.least)

end PoseRig.Binary.Format
