import PoseRig.Document.Real
import PoseRig.Json.Decode
import PoseRig.Property.Value
import PoseRig.Property.PathReader

/-!
# Stored values and paths

A value is stored with the label of its kind as tag. A path is stored as its text.
-/

set_option autoImplicit false

namespace PoseRig

namespace Document

def ofReals (w : RealWriter) (xs : List Scalar) : Json := .arr (xs.map w)

def ofVec (w : RealWriter) (v : Vec) : Json := ofReals w v.toList

def ofQuat (w : RealWriter) (q : Quat) : Json := ofReals w q.toList

def vec? (j : Json) : Option Vec :=
  match j.list? Json.scalar? with
  | some [x, y, z] => some ⟨x, y, z⟩
  | _ => none

def quat? (j : Json) : Option Quat :=
  match j.list? Json.scalar? with
  | some [w, x, y, z] => some ⟨w, x, y, z⟩
  | _ => none

def ofChoice {α : Type} [Labelled α] (a : α) : Json := .str (label a)

def ofOptionalText (s : Option String) : Json := Json.ofOption .str s

def optionalText? (j : Json) : Option (Option String) := j.optional? Json.text?

def ofTable {α : Type} (f : α → Json) (t : Table α) : Json :=
  .obj (t.entries.map fun e => (e.1, f e.2))

def ofPath (p : Path) : Json := .str p.text

def path? (j : Json) : Option Path :=
  match j with
  | .str s => (Path.parse s).toOption
  | _ => none

theorem sizeOf_lookup {fields : List (String × Json)} {name : String} {j : Json}
    (h : fields.lookup name = some j) : sizeOf j < sizeOf fields := by
  induction fields with
  | nil => simp at h
  | cons e r ih =>
    obtain ⟨k, v⟩ := e
    simp only [List.lookup_cons] at h
    split at h
    · simp only [Option.some.injEq] at h
      subst h
      simp only [List.cons.sizeOf_spec, Prod.mk.sizeOf_spec]
      omega
    · have := ih h
      simp only [List.cons.sizeOf_spec]
      omega

theorem sizeOf_tagged {α : Type} [Labelled α] {tag content : String} {turn : Json.Turn} {j c : Json}
    {t : Json.Tagged α} (h : j.tagged? α tag content turn = some t) (hc : t.content = some c) :
    sizeOf c < sizeOf j := by
  unfold Json.tagged? at h
  split at h
  · split at h
    · simp only [Option.some.injEq] at h
      subst h
      have := sizeOf_lookup hc
      simp only [Json.obj.sizeOf_spec]
      omega
    · simp at h
  · split at h
    · simp only [Option.some.injEq] at h
      subst h
      simp only [Option.some.injEq] at hc
      subst hc
      simp only [Json.arr.sizeOf_spec, List.cons.sizeOf_spec]
      omega
    · simp at h
  · simp at h

end Document

namespace Value

open Document

def stored (kind : ValueKind) (content : Json) : Json :=
  .obj [("type", ofChoice kind), ("data", content)]

mutual

def toJson (w : RealWriter) : Value → Json
  | .float x => stored .float (w x)
  | .int i => stored .int (.int i)
  | .bool b => stored .bool (.bool b)
  | .vec3 v => stored .vec3 (ofVec w v)
  | .quat q => stored .quat (ofQuat w q)
  | .vector xs => stored .vector (ofReals w xs)
  | .text s => stored .text (.str s)
  | .record fields => stored .record (.obj (membersToJson w fields))
  | .list items => stored .list (.arr (itemsToJson w items))

def itemsToJson (w : RealWriter) : List Value → List Json
  | [] => []
  | v :: r => toJson w v :: itemsToJson w r

def membersToJson (w : RealWriter) : List (String × Value) → List (String × Json)
  | [] => []
  | (name, v) :: r => (name, toJson w v) :: membersToJson w r

end

mutual

def ofJsonIn? (turn : Json.Turn) (j : Json) : Option Value :=
  match _h : j.tagged? ValueKind "type" "data" turn with
  | none => none
  | some t =>
    match _hc : t.content with
    | none => none
    | some c =>
      match t.tag with
      | .float => c.scalar?.map .float
      | .int => c.long?.map .int
      | .bool => c.flag?.map .bool
      | .vec3 => (vec? c).map .vec3
      | .quat => (quat? c).map .quat
      | .vector => (c.list? Json.scalar?).map .vector
      | .text => c.text?.map .text
      | .record =>
        match c with
        | .obj fields => (membersOfJson? t.turn fields).map ofFields
        | _ => none
      | .list =>
        match c with
        | .arr items => (itemsOfJson? t.turn items).map .list
        | _ => none
termination_by sizeOf j
decreasing_by
  all_goals
    have := sizeOf_tagged _h _hc
    simp only [Json.obj.sizeOf_spec, Json.arr.sizeOf_spec] at this
    omega

def itemsOfJson? (turn : Json.Turn) (items : List Json) : Option (List Value) :=
  match items with
  | [] => some []
  | j :: r =>
    match ofJsonIn? turn j, itemsOfJson? turn r with
    | some v, some vs => some (v :: vs)
    | _, _ => none
termination_by sizeOf items

def membersOfJson? (turn : Json.Turn) (fields : List (String × Json)) :
    Option (List (String × Value)) :=
  match fields with
  | [] => some []
  | (name, j) :: r =>
    match ofJsonIn? turn j, membersOfJson? turn r with
    | some v, some vs => some ((name, v) :: vs)
    | _, _ => none
termination_by sizeOf fields

end

def ofJson? (j : Json) : Option Value := ofJsonIn? .atOnce j

end Value

end PoseRig
