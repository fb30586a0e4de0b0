import PoseRig.Rotation.Euler
import PoseRig.Table

/-!
# Property values

What reading a property can give. Drivers consume scalars: a number or a flag is one, anything with
parts is not, and one of its parts must be addressed.
-/

set_option autoImplicit false

namespace PoseRig

inductive Value where
  | float (x : Scalar)
  | int (i : Int)
  | bool (b : Bool)
  | vec3 (v : Vec)
  | quat (q : Quat)
  | vector (xs : List Scalar)
  | text (s : String)
  | record (fields : List (String × Value))
  | list (items : List Value)

inductive ValueKind where
  | float
  | int
  | bool
  | vec3
  | quat
  | vector
  | text
  | record
  | list
  deriving DecidableEq, Repr

instance : Labelled ValueKind where
  all := [.float, .int, .bool, .vec3, .quat, .vector, .text, .record, .list]
  label
    | .float => "float"
    | .int => "int"
    | .bool => "bool"
    | .vec3 => "vec3"
    | .quat => "quat"
    | .vector => "vector"
    | .text => "text"
    | .record => "record"
    | .list => "list"

namespace Value

def kind : Value → ValueKind
  | .float _ => .float
  | .int _ => .int
  | .bool _ => .bool
  | .vec3 _ => .vec3
  | .quat _ => .quat
  | .vector _ => .vector
  | .text _ => .text
  | .record _ => .record
  | .list _ => .list

/-- The record with these members; of two with one name the later counts. -/
def ofFields (fields : List (String × Value)) : Value := .record (Table.ofList fields).entries

instance : Inhabited Value := ⟨.bool false⟩

def component? (v : Value) (i : Nat) : Option Value :=
  match v with
  | .vec3 v => v.toList[i]?.map .float
  | .quat q => q.toList[i]?.map .float
  | .vector xs => xs[i]?.map .float
  | .list items => items[i]?
  | _ => none

def member? (v : Value) (name : String) : Option Value :=
  match v with
  | .record fields => fields.lookup name
  | _ => none

def toScalar? : Value → Option Scalar
  | .float x => some x
  | .int i => some (.ofInteger i)
  | .bool b => some (if b then 1 else 0)
  | _ => none

mutual

/-- All scalars of a value in order; text and records have none. -/
def toVector : Value → List Scalar
  | .float x => [x]
  | .int i => [.ofInteger i]
  | .bool b => [if b then 1 else 0]
  | .vec3 v => v.toList
  | .quat q => q.toList
  | .vector xs => xs
  | .text _ => []
  | .record _ => []
  | .list items => toVectors items

def toVectors : List Value → List Scalar
  | [] => []
  | v :: r => toVector v ++ toVectors r

end

end Value

end PoseRig
