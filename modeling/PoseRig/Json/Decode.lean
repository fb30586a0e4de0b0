import PoseRig.Json.Basic
import PoseRig.Table
import PoseRig.Label
import PoseRig.Number.Bounds

/-!
# Reading parts of stored values

Strict readers for the parts of a stored document: no conversion between kinds, integers within
their range, lists of exact length where the length is fixed. A record is stored as an object, or as
the list of its fields in order; a field that is absent takes its default. A choice is stored as its
label, or as an object with that label over null.

A value of several kinds carries a tag. What stands beside the tag is read only after it, and in all
that is read after a tag the label of a choice may also stand over an empty object.
-/

set_option autoImplicit false

namespace PoseRig.Json

variable {α : Type}

def text? : Json → Option String
  | .str s => some s
  | _ => none

def flag? : Json → Option Bool
  | .bool b => some b
  | _ => none

def intIn? (low high : Int) : Json → Option Int
  | .int i => if low ≤ i ∧ i < high then some i else none
  | _ => none

def index? (j : Json) : Option Nat := (intIn? 0 Bounds.index j).map Int.toNat

def frame? (j : Json) : Option Int := intIn? (-Bounds.frame) Bounds.frame j

def long? (j : Json) : Option Int := intIn? (-Bounds.long) Bounds.long j

/-- A real number; integers within 64 bits are rounded once. -/
def scalar? : Json → Option Scalar
  | .int i =>
    if -Bounds.long ≤ i ∧ i < Bounds.index then some (.ofInteger i)
    else some (Decimal.toScalarViaDouble ⟨decide (i < 0), i.natAbs, 0⟩)
  | .real d => some d.toScalarViaDouble
  | _ => none

def all? (f : Json → Option α) : List Json → Option (List α)
  | [] => some []
  | j :: r =>
    match f j, all? f r with
    | some a, some as => some (a :: as)
    | _, _ => none

def list? (f : Json → Option α) : Json → Option (List α)
  | .arr items => all? f items
  | _ => none

def optional? (f : Json → Option α) : Json → Option (Option α)
  | .null => some none
  | j => (f j).map some

def allFields? (f : Json → Option α) : List (String × Json) → Option (List (String × α))
  | [] => some []
  | (name, j) :: r =>
    match f j, allFields? f r with
    | some a, some as => some ((name, a) :: as)
    | _, _ => none

def fields? (f : Json → Option α) : Json → Option (List (String × α))
  | .obj fields => allFields? f fields
  | _ => none

def table? (f : Json → Option α) (j : Json) : Option (Table α) := (fields? f j).map Table.ofList

/-- When a part is read: where it is met, or only after the tag that stands beside it. -/
inductive Turn where
  | atOnce
  | afterTag
  deriving DecidableEq, Repr

/-- What stands under the label of a choice: nothing, which after a tag may also be an empty
object. -/
def isVoid : Turn → Json → Bool
  | _, .null => true
  | .afterTag, .obj [] => true
  | _, _ => false

def choiceIn? (α : Type) [Labelled α] (turn : Turn) : Json → Option α
  | .str s => ofLabel? α s
  | .obj [(s, j)] => if isVoid turn j then ofLabel? α s else none
  | _ => none

def choice? (α : Type) [Labelled α] : Json → Option α := choiceIn? α .atOnce

def record? (names : List String) : Json → Option (List (String × Json))
  | .obj fields => some fields
  | .arr items => if items.length ≤ names.length then some (names.zip items) else none
  | _ => none

/-- A field of a record, or its default when absent. -/
def orElse (fields : List (String × Json)) (name : String) (f : Json → Option α) (default : α) :
    Option α :=
  match fields.lookup name with
  | some j => f j
  | none => some default

def required (fields : List (String × Json)) (name : String) (f : Json → Option α) : Option α :=
  (fields.lookup name).bind f

structure Tagged (α : Type) where
  tag : α
  content : Option Json
  turn : Turn

/-- The tag at the head of a list: its label, or after an outer tag also its place among all. -/
def leading? (α : Type) [Labelled α] : Turn → Json → Option α
  | _, .str s => ofLabel? α s
  | .afterTag, .int (.ofNat i) => (Labelled.all : List α)[i]?
  | _, _ => none

/-- Reads the tag of a value: an object holds tag and content under these names, so the content
waits for the tag; a list holds the tag first, so the content keeps the turn of the whole. -/
def tagged? (α : Type) [Labelled α] (tag content : String) (turn : Turn) :
    Json → Option (Tagged α)
  | .obj fields =>
    match (fields.lookup tag).bind (choiceIn? α turn) with
    | some a => some ⟨a, fields.lookup content, .afterTag⟩
    | none => none
  | .arr [t, c] =>
    match leading? α turn t with
    | some a => some ⟨a, some c, turn⟩
    | none => none
  | _ => none

end PoseRig.Json
