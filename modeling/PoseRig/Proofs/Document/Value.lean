import PoseRig.Document.Library
import PoseRig.Document.Session
import PoseRig.Proofs.Document.Codec
import PoseRig.Proofs.Property.RoundTrip

/-!
# Codecs of values

Reading a label gives back the choice that it was written for, and reading the text of a path the
path. A value is read back whatever tag it stands under, since each of its parts waits for the tag
of its own.
-/

set_option autoImplicit false

namespace PoseRig

class Legible (α : Type) [Labelled α] : Prop where
  ofLabel?_label : ∀ a : α, ofLabel? α (label a) = some a

instance : Legible PoseKind := ⟨by intro a; cases a <;> rfl⟩

instance : Legible TargetKind := ⟨by intro a; cases a <;> rfl⟩

instance : Legible ObjectKind := ⟨by intro a; cases a <;> rfl⟩

instance : Legible Mode := ⟨by intro a; cases a <;> rfl⟩

instance : Legible BlendMode := ⟨by intro a; cases a <;> rfl⟩

instance : Legible Space := ⟨by intro a; cases a <;> rfl⟩

instance : Legible Mix := ⟨by intro a; cases a <;> rfl⟩

instance : Legible ValueKind := ⟨by intro a; cases a <;> rfl⟩

instance : Legible SessionState := ⟨by intro a; cases a <;> rfl⟩

instance : Legible Channel := ⟨by rintro ⟨kind, axis⟩; cases kind <;> cases axis <;> rfl⟩

instance : Legible RotationMode where
  ofLabel?_label
    | .quaternion => rfl
    | .euler order => by cases order <;> rfl

instance : Legible RotationReading where
  ofLabel?_label
    | .auto => rfl
    | .quaternion => rfl
    | .euler order => by cases order <;> rfl
    | .swingTwist axis => by cases axis <;> rfl

namespace Document

variable {w : RealWriter} {turn : Json.Turn}

namespace Codec

def choice (α : Type) [Labelled α] (turn : Json.Turn) : Codec α :=
  .plain (fun _ => True) ofChoice (Json.choiceIn? α turn)

@[simp] theorem storable_choice (α : Type) [Labelled α] (turn : Json.Turn) (a : α) :
    (choice α turn).Storable a := trivial

@[simp] theorem read_choice (α : Type) [Labelled α] (turn : Json.Turn) :
    (choice α turn).read = Json.choiceIn? α turn := rfl

theorem lawful_choice (α : Type) [Labelled α] [Legible α] (turn : Json.Turn) :
    (choice α turn).Lawful := lawful_plain fun a _ => Legible.ofLabel?_label a

@[simp] theorem isFinite_zero : (0 : Scalar).isFinite = true := by decide

@[simp] theorem isFinite_one : (1 : Scalar).isFinite = true := by decide

def text : Codec String := .plain (fun _ => True) .str Json.text?

def optionalText : Codec (Option String) := text.optional

def flag : Codec Bool := .plain (fun _ => True) .bool Json.flag?

def index : Codec Nat := .plain (· < Bounds.index) Json.ofNat Json.index?

def frame : Codec Int := .plain (fun i => -Bounds.frame ≤ i ∧ i < Bounds.frame) .int Json.frame?

def real (w : RealWriter) : Codec Scalar := .plain (fun x => x.isFinite = true) w Json.scalar?

def path : Codec Path := .plain Path.WellFormed ofPath path?

def vec (w : RealWriter) : Codec Vec :=
  .plain (fun v => ∀ x ∈ v.toList, x.isFinite = true) (ofVec w) vec?

def quat (w : RealWriter) : Codec Quat :=
  .plain (fun q => ∀ x ∈ q.toList, x.isFinite = true) (ofQuat w) quat?

@[simp] theorem storable_text (s : String) : text.Storable s := trivial

@[simp] theorem storable_optionalText (s : Option String) : optionalText.Storable s :=
  fun _ _ => trivial

@[simp] theorem storable_flag (b : Bool) : flag.Storable b := trivial

@[simp] theorem storable_index (n : Nat) : index.Storable n ↔ n < Bounds.index := Iff.rfl

@[simp] theorem storable_frame (i : Int) :
    frame.Storable i ↔ -Bounds.frame ≤ i ∧ i < Bounds.frame := Iff.rfl

@[simp] theorem storable_real (w : RealWriter) (x : Scalar) :
    (real w).Storable x ↔ x.isFinite = true := Iff.rfl

@[simp] theorem storable_vec (w : RealWriter) (x y z : Scalar) :
    (vec w).Storable ⟨x, y, z⟩ ↔ x.isFinite = true ∧ y.isFinite = true ∧ z.isFinite = true := by
  simp [vec, plain, Triple.toList]

@[simp] theorem storable_splat (w : RealWriter) (x : Scalar) :
    (vec w).Storable (.splat x) ↔ x.isFinite = true := by
  simp [vec, plain, Triple.splat, Triple.toList]

@[simp] theorem storable_identity (w : RealWriter) : (quat w).Storable .identity := by
  show ∀ x ∈ Quaternion.toList (Quaternion.identity : Quat), x.isFinite = true
  decide

@[simp] theorem read_text : text.read = Json.text? := rfl

@[simp] theorem read_optionalText : optionalText.read = optionalText? := rfl

@[simp] theorem read_flag : flag.read = Json.flag? := rfl

@[simp] theorem read_index : index.read = Json.index? := rfl

@[simp] theorem read_frame : frame.read = Json.frame? := rfl

@[simp] theorem read_real (w : RealWriter) : (real w).read = Json.scalar? := rfl

@[simp] theorem read_vec (w : RealWriter) : (vec w).read = vec? := rfl

@[simp] theorem read_quat (w : RealWriter) : (quat w).read = quat? := rfl

theorem lawful_text : text.Lawful := lawful_plain fun _ _ => rfl

theorem lawful_optionalText : optionalText.Lawful := lawful_optional lawful_text nofun

theorem lawful_flag : flag.Lawful := lawful_plain fun _ _ => rfl

theorem lawful_index : index.Lawful := by
  apply lawful_plain
  intro n hn
  have hrange : (0 : Int) ≤ n ∧ (n : Int) < Bounds.index :=
    ⟨Int.natCast_nonneg n, Int.ofNat_lt.mpr hn⟩
  simp [Json.index?, Json.ofNat, Json.intIn?, hrange]

theorem lawful_frame : frame.Lawful :=
  lawful_plain fun i hi => by simp [Json.frame?, Json.intIn?, hi]

theorem lawful_real (hw : w.Lossless) : (real w).Lawful := lawful_plain hw

theorem lawful_path : path.Lawful := by
  apply lawful_plain
  intro p hp
  simp [path?, ofPath, Path.parse_text_of_wellFormed hp, Except.toOption]

theorem list?_ofReals (hw : w.Lossless) {xs : List Scalar} (h : ∀ x ∈ xs, x.isFinite = true) :
    (ofReals w xs).list? Json.scalar? = some xs :=
  (lawful_list (lawful_real hw)).read_write h

theorem lawful_vec (hw : w.Lossless) : (vec w).Lawful := by
  apply lawful_plain
  intro v hv
  rw [vec?, ofVec, list?_ofReals hw hv]
  rfl

theorem lawful_quat (hw : w.Lossless) : (quat w).Lawful := by
  apply lawful_plain
  intro q hq
  rw [quat?, ofQuat, list?_ofReals hw hq]
  rfl

end Codec

end Document

namespace Value

open Document

variable {w : RealWriter}

mutual

/-- Values of finite reals, with whole numbers that fit and records whose members have
distinct names. -/
def Storable : Value → Prop
  | .float x => x.isFinite = true
  | .int i => -Bounds.long ≤ i ∧ i < Bounds.long
  | .bool _ => True
  | .vec3 v => ∀ x ∈ v.toList, x.isFinite = true
  | .quat q => ∀ x ∈ q.toList, x.isFinite = true
  | .vector xs => ∀ x ∈ xs, x.isFinite = true
  | .text _ => True
  | .record fields => (Entries.names fields).Nodup ∧ StorableMembers fields
  | .list items => StorableItems items

def StorableItems : List Value → Prop
  | [] => True
  | v :: r => v.Storable ∧ StorableItems r

def StorableMembers : List (String × Value) → Prop
  | [] => True
  | (_, v) :: r => v.Storable ∧ StorableMembers r

end

theorem tagged?_stored (turn : Json.Turn) (kind : ValueKind) (content : Json) :
    (stored kind content).tagged? ValueKind "type" "data" turn =
      some ⟨kind, some content, .afterTag⟩ := by
  cases kind <;> rfl

theorem ofJsonIn?_stored (turn : Json.Turn) (kind : ValueKind) (content : Json) :
    ofJsonIn? turn (stored kind content) =
      match kind with
      | .float => content.scalar?.map .float
      | .int => content.long?.map .int
      | .bool => content.flag?.map .bool
      | .vec3 => (vec? content).map .vec3
      | .quat => (quat? content).map .quat
      | .vector => (content.list? Json.scalar?).map .vector
      | .text => content.text?.map .text
      | .record =>
        match content with
        | .obj fields => (membersOfJson? .afterTag fields).map ofFields
        | _ => none
      | .list =>
        match content with
        | .arr items => (itemsOfJson? .afterTag items).map .list
        | _ => none := by
  rw [ofJsonIn?]
  split
  · rename_i h
    rw [tagged?_stored] at h
    cases h
  · rename_i t h
    rw [tagged?_stored] at h
    obtain rfl := Option.some.inj h
    cases kind with
    | record => cases content <;> rfl
    | list => cases content <;> rfl
    | _ => rfl

theorem ofFields_of_nodup {fields : List (String × Value)} (h : (Entries.names fields).Nodup) :
    ofFields fields = .record fields :=
  congrArg (fun t => Value.record (Table.entries t)) (Table.ofList_entries ⟨fields, h⟩)

mutual

theorem ofJsonIn?_toJson (hw : w.Lossless) (turn : Json.Turn) (v : Value) (hv : v.Storable) :
    ofJsonIn? turn (v.toJson w) = some v := by
  cases v with
  | float x =>
    rw [toJson, ofJsonIn?_stored]
    simp only [hw x hv, Option.map_some]
  | int i =>
    have hi : Json.long? (.int i) = some i := if_pos hv
    rw [toJson, ofJsonIn?_stored]
    simp only [hi, Option.map_some]
  | bool b => rw [toJson, ofJsonIn?_stored]; rfl
  | vec3 v =>
    have hread : vec? (ofVec w v) = some v := (Codec.lawful_vec hw).read_write hv
    rw [toJson, ofJsonIn?_stored]
    simp only [hread, Option.map_some]
  | quat q =>
    have hread : quat? (ofQuat w q) = some q := (Codec.lawful_quat hw).read_write hv
    rw [toJson, ofJsonIn?_stored]
    simp only [hread, Option.map_some]
  | vector xs =>
    rw [toJson, ofJsonIn?_stored]
    simp only [Codec.list?_ofReals hw hv, Option.map_some]
  | text s => rw [toJson, ofJsonIn?_stored]; rfl
  | record fields =>
    obtain ⟨hnames, hmembers⟩ := hv
    rw [toJson, ofJsonIn?_stored]
    simp only [membersOfJson?_toJson hw .afterTag fields hmembers, Option.map_some,
      ofFields_of_nodup hnames]
  | list items =>
    rw [toJson, ofJsonIn?_stored]
    simp only [itemsOfJson?_toJson hw .afterTag items hv, Option.map_some]

theorem itemsOfJson?_toJson (hw : w.Lossless) (turn : Json.Turn) (items : List Value)
    (h : StorableItems items) : itemsOfJson? turn (itemsToJson w items) = some items := by
  cases items with
  | nil => rw [itemsToJson, itemsOfJson?]
  | cons v r =>
    obtain ⟨hv, hr⟩ := h
    rw [itemsToJson, itemsOfJson?, ofJsonIn?_toJson hw turn v hv, itemsOfJson?_toJson hw turn r hr]

theorem membersOfJson?_toJson (hw : w.Lossless) (turn : Json.Turn) (fields : List (String × Value))
    (h : StorableMembers fields) : membersOfJson? turn (membersToJson w fields) = some fields := by
  cases fields with
  | nil => rw [membersToJson, membersOfJson?]
  | cons e r =>
    obtain ⟨name, v⟩ := e
    obtain ⟨hv, hr⟩ := h
    rw [membersToJson, membersOfJson?, ofJsonIn?_toJson hw turn v hv,
      membersOfJson?_toJson hw turn r hr]

end

end Value

namespace Document.Codec

def value (w : RealWriter) : Codec Value := .plain Value.Storable (Value.toJson w) Value.ofJson?

@[simp] theorem storable_value (w : RealWriter) (v : Value) : (value w).Storable v ↔ v.Storable :=
  Iff.rfl

@[simp] theorem read_value (w : RealWriter) : (value w).read = Value.ofJson? := rfl

theorem lawful_value {w : RealWriter} (hw : w.Lossless) : (value w).Lawful :=
  lawful_plain fun v hv => v.ofJsonIn?_toJson hw .atOnce hv

end Document.Codec

end PoseRig
