import PoseRig.Number.Decimal

/-!
# Json values

A number keeps whether it was written as an integer, because an index may not be written `1.0`.
-/

set_option autoImplicit false

namespace PoseRig

inductive Json where
  | null
  | bool (b : Bool)
  | int (i : Int)
  | real (d : Decimal)
  | str (s : String)
  | arr (items : List Json)
  | obj (fields : List (String × Json))
  deriving Inhabited

namespace Json

def ofOption {α : Type} (f : α → Json) : Option α → Json
  | none => .null
  | some a => f a

def ofNat (n : Nat) : Json := .int n

def strings (ss : List String) : Json := .arr (ss.map .str)

mutual

/-- How many lists and objects enclose one another at most. -/
def depth : Json → Nat
  | .arr items => depthOfItems items + 1
  | .obj fields => depthOfFields fields + 1
  | _ => 0

def depthOfItems : List Json → Nat
  | [] => 0
  | j :: r => max (depth j) (depthOfItems r)

def depthOfFields : List (String × Json) → Nat
  | [] => 0
  | (_, j) :: r => max (depth j) (depthOfFields r)

end

def field? (name : String) : Json → Option Json
  | .obj fields => fields.lookup name
  | _ => none

end Json

end PoseRig
