import PoseRig.Expr.Token

/-!
# Driver expressions

Arithmetic on scalars with variables and a fixed set of functions. Operands and arguments are
evaluated from left to right, and the first failure is the result.
-/

set_option autoImplicit false

namespace PoseRig

inductive BinaryOp where
  | add
  | sub
  | mul
  | div
  deriving DecidableEq, Repr

inductive Expr where
  | number (x : Scalar)
  | var (name : String)
  | negate (e : Expr)
  | binary (op : BinaryOp) (left right : Expr)
  | call (function : String) (args : List Expr)
  deriving Inhabited

namespace Scalar

def toDegrees (x : Scalar) : Scalar := x * 57.29578

def toRadians (x : Scalar) : Scalar := x * (3.1415927 / 180)

def clampUnit (x : Scalar) : Scalar :=
  if x < 0 then 0 else if 1 < x then 1 else x

end Scalar

namespace BinaryOp

/-- Dividing by either zero is an error. -/
def apply (op : BinaryOp) (l r : Scalar) : Except ExprError Scalar :=
  match op with
  | .add => .ok (l + r)
  | .sub => .ok (l - r)
  | .mul => .ok (l * r)
  | .div => if r == 0 then .error .divisionByZero else .ok (l / r)

end BinaryOp

namespace Expr

def foldArguments (function : String) (f : Scalar → Scalar → Scalar) :
    List Scalar → Except ExprError Scalar
  | [] => .error (.arity function "at least 1" 0)
  | x :: xs => .ok (xs.foldl f x)

def oneArgument (function : String) (f : Scalar → Scalar) : List Scalar → Except ExprError Scalar
  | [x] => .ok (f x)
  | xs => .error (.arity function "1" xs.length)

def applyFunction (function : String) (args : List Scalar) : Except ExprError Scalar :=
  if function = "min" then foldArguments function Scalar.min args
  else if function = "max" then foldArguments function Scalar.max args
  else if function = "abs" then oneArgument function Float32.abs args
  else if function = "degrees" then oneArgument function Scalar.toDegrees args
  else if function = "radians" then oneArgument function Scalar.toRadians args
  else if function = "clamp" then
    match args with
    | [x] => .ok x.clampUnit
    | [x, low, high] => .ok (Scalar.min (Scalar.max x low) high)
    | xs => .error (.arity function "1 or 3" xs.length)
  else .error (.unknownFunction function)

mutual

def eval (lookup : String → Option Scalar) : Expr → Except ExprError Scalar
  | .number x => .ok x
  | .var name =>
    match lookup name with
    | some x => .ok x
    | none => .error (.unknownVariable name)
  | .negate e =>
    match eval lookup e with
    | .ok x => .ok (-x)
    | .error err => .error err
  | .binary op left right =>
    match eval lookup left with
    | .error err => .error err
    | .ok l =>
      match eval lookup right with
      | .error err => .error err
      | .ok r => op.apply l r
  | .call function args =>
    match evalAll lookup args with
    | .ok xs => applyFunction function xs
    | .error err => .error err

def evalAll (lookup : String → Option Scalar) : List Expr → Except ExprError (List Scalar)
  | [] => .ok []
  | e :: r =>
    match eval lookup e with
    | .error err => .error err
    | .ok x =>
      match evalAll lookup r with
      | .ok xs => .ok (x :: xs)
      | .error err => .error err

end

mutual

def occurrences : Expr → List String
  | .number _ => []
  | .var name => [name]
  | .negate e => occurrences e
  | .binary _ left right => occurrences left ++ occurrences right
  | .call _ args => occurrencesAll args

def occurrencesAll : List Expr → List String
  | [] => []
  | e :: r => occurrences e ++ occurrencesAll r

end

def addName (names : List String) (name : String) : List String :=
  if name ∈ names then names else names ++ [name]

def varNames (e : Expr) : List String := e.occurrences.foldl addName []

end Expr

end PoseRig
