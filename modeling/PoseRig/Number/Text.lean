import PoseRig.Number.Shortest

/-!
# The text of a scalar

The shortest digits that read back, written positionally with at least one digit after the point
when the leading digit stands between `10 ^ -4` and `10 ^ 15`, and with an exponent otherwise.
-/

set_option autoImplicit false

namespace PoseRig.Scalar

def zeros (n : Nat) : List Char := List.replicate n '0'

def positional (ds : List Char) (point : Int) : List Char :=
  if point ≤ 0 then '0' :: '.' :: zeros (-point).toNat ++ ds
  else if ds.length ≤ point.toNat then ds ++ zeros (point.toNat - ds.length) ++ ['.', '0']
  else ds.take point.toNat ++ '.' :: ds.drop point.toNat

def exponential (ds : List Char) (exponent : Int) : List Char :=
  let mantissa := match ds with
    | [] => []
    | [d] => [d]
    | d :: r => d :: '.' :: r
  mantissa ++ 'e' :: (toString exponent).toList

def digitsText (d : Nat) (k : Int) : List Char :=
  let ds := Nat.toDigits 10 d
  let leading := k + ds.length - 1
  if -4 ≤ leading ∧ leading < 16 then positional ds (leading + 1) else exponential ds leading

def magnitudeText (bits : Nat) : List Char :=
  if bits = 0 then ['0', '.', '0']
  else
    let (d, k) := Binary.single.shortest bits
    digitsText d k

/-- The text of a scalar; negative zero keeps its sign. -/
def text (x : Scalar) : String :=
  match classify x with
  | .nan => "NaN"
  | .infinite negative => if negative then "-inf" else "inf"
  | .finite negative _ _ =>
    let body := String.ofList (magnitudeText (magnitude x))
    if negative then "-" ++ body else body

end PoseRig.Scalar
