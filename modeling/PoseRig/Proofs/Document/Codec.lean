import Mathlib.Data.List.Forall2
import PoseRig.Document.Real
import PoseRig.Json.Decode
import PoseRig.Proofs.Table

/-!
# Codecs

A codec of a type says which values can be stored, how one is written, which json stand for it, and
how json is read. It is lawful if what is written stands for the value, and whatever stands for a
value is read as that value. A field of a record may be left out where the record has the default
value there, so that many json stand for one record.
-/

set_option autoImplicit false

namespace PoseRig

def Json.without (names : List String) : Json → Json
  | .obj fs => .obj (fs.filter fun f => !names.contains f.1)
  | j => j

namespace Document

/-- Every finite real survives being written. -/
def RealWriter.Lossless (w : RealWriter) : Prop :=
  ∀ x : Scalar, x.isFinite = true → (w x).scalar? = some x

structure Codec (α : Type) where
  Storable : α → Prop
  write : α → Json
  Stands : α → Json → Prop
  read : Json → Option α

variable {α ρ : Type} {φ : Codec α}

namespace Codec

structure Lawful (φ : Codec α) : Prop where
  stands_write : ∀ a, φ.Storable a → φ.Stands a (φ.write a)
  read_of_stands : ∀ a j, φ.Stands a j → φ.read j = some a

theorem Lawful.read_write (h : φ.Lawful) {a : α} (ha : φ.Storable a) :
    φ.read (φ.write a) = some a :=
  h.read_of_stands a _ (h.stands_write a ha)

def plain (Storable : α → Prop) (write : α → Json) (read : Json → Option α) : Codec α where
  Storable := Storable
  write := write
  Stands a j := Storable a ∧ j = write a
  read := read

theorem lawful_plain {Storable : α → Prop} {write : α → Json} {read : Json → Option α}
    (h : ∀ a, Storable a → read (write a) = some a) : (plain Storable write read).Lawful where
  stands_write a ha := ⟨ha, rfl⟩
  read_of_stands a j := by
    rintro ⟨ha, rfl⟩
    exact h a ha

def list (φ : Codec α) : Codec (List α) where
  Storable as := ∀ a ∈ as, φ.Storable a
  write as := .arr (as.map φ.write)
  Stands as j := ∃ js, j = .arr js ∧ List.Forall₂ φ.Stands as js
  read := Json.list? φ.read

@[simp] theorem storable_nil (φ : Codec α) : φ.list.Storable [] := nofun

@[simp] theorem storable_cons (φ : Codec α) (a : α) (as : List α) :
    φ.list.Storable (a :: as) ↔ φ.Storable a ∧ φ.list.Storable as := List.forall_mem_cons

@[simp] theorem read_list (φ : Codec α) : φ.list.read = Json.list? φ.read := rfl

theorem all?_of_stands (h : φ.Lawful) {as : List α} {js : List Json}
    (hstands : List.Forall₂ φ.Stands as js) : Json.all? φ.read js = some as := by
  induction hstands with
  | nil => rfl
  | cons ha _ ih => rw [Json.all?, h.read_of_stands _ _ ha, ih]

theorem lawful_list (h : φ.Lawful) : φ.list.Lawful where
  stands_write as has := by
    refine ⟨_, rfl, ?_⟩
    rw [List.forall₂_map_right_iff, List.forall₂_same]
    exact fun a ha => h.stands_write a (has a ha)
  read_of_stands as j := by
    rintro ⟨js, rfl, hstands⟩
    exact all?_of_stands h hstands

def optional (φ : Codec α) : Codec (Option α) where
  Storable o := ∀ a ∈ o, φ.Storable a
  write := Json.ofOption φ.write
  Stands
    | none, j => j = .null
    | some a, j => φ.Stands a j ∧ j ≠ .null
  read := Json.optional? φ.read

@[simp] theorem storable_none (φ : Codec α) : φ.optional.Storable none := nofun

@[simp] theorem storable_some (φ : Codec α) (a : α) :
    φ.optional.Storable (some a) ↔ φ.Storable a := by
  simp [optional]

@[simp] theorem read_optional (φ : Codec α) : φ.optional.read = Json.optional? φ.read := rfl

theorem lawful_optional (h : φ.Lawful) (hnull : ∀ a, φ.write a ≠ .null) : φ.optional.Lawful where
  stands_write
    | none, _ => rfl
    | some a, ha => ⟨h.stands_write a (ha a rfl), hnull a⟩
  read_of_stands
    | none, j => by
      rintro rfl
      rfl
    | some a, j => by
      rintro ⟨ha, hj⟩
      show Json.optional? φ.read j = some (some a)
      unfold Json.optional?
      split
      · exact absurd rfl hj
      · rw [h.read_of_stands a j ha]
        rfl

def table (φ : Codec α) : Codec (Table α) where
  Storable t := ∀ a ∈ t.values, φ.Storable a
  write t := .obj (t.entries.map fun e => (e.1, φ.write e.2))
  Stands t j := ∃ fs, j = .obj fs ∧
    List.Forall₂ (fun e f => f.1 = e.1 ∧ φ.Stands e.2 f.2) t.entries fs
  read := Json.table? φ.read

@[simp] theorem storable_empty (φ : Codec α) : φ.table.Storable .empty := nofun

@[simp] theorem storable_single (φ : Codec α) (name : String) (a : α) :
    φ.table.Storable (.ofList [(name, a)]) ↔ φ.Storable a := List.forall_mem_singleton

@[simp] theorem read_table (φ : Codec α) : φ.table.read = Json.table? φ.read := rfl

theorem allFields?_of_stands (h : φ.Lawful) {es : List (String × α)} {fs : List (String × Json)}
    (hstands : List.Forall₂ (fun e f => f.1 = e.1 ∧ φ.Stands e.2 f.2) es fs) :
    Json.allFields? φ.read fs = some es := by
  induction hstands with
  | nil => rfl
  | @cons e f _ _ he _ ih =>
    obtain ⟨name, a⟩ := e
    obtain ⟨_, j⟩ := f
    obtain ⟨rfl, ha⟩ := he
    rw [Json.allFields?, h.read_of_stands a j ha, ih]

theorem lawful_table (h : φ.Lawful) : φ.table.Lawful where
  stands_write t ht := by
    refine ⟨_, rfl, ?_⟩
    rw [List.forall₂_map_right_iff, List.forall₂_same]
    exact fun e he => ⟨rfl, h.stands_write e.2 (ht e.2 (List.mem_map_of_mem he))⟩
  read_of_stands t j := by
    rintro ⟨fs, rfl, hstands⟩
    show (Json.allFields? φ.read fs).map Table.ofList = some t
    rw [allFields?_of_stands h hstands, Option.map_some, Table.ofList_entries]

end Codec

structure Field (ρ : Type) where
  {α : Type}
  name : String
  get : ρ → α
  codec : Codec α

/-- Under the name of the field stands its value in `r`, or there is no such name and the value is
the one in `d`. -/
def Field.Held (f : Field ρ) (d r : ρ) (fs : List (String × Json)) : Prop :=
  match fs.lookup f.name with
  | some j => f.codec.Stands (f.get r) j
  | none => f.get r = f.get d

theorem Field.Held.orElse {f : Field ρ} {d r : ρ} {fs : List (String × Json)} (h : f.Held d r fs)
    (hf : f.codec.Lawful) : Json.orElse fs f.name f.codec.read (f.get d) = some (f.get r) := by
  unfold Field.Held at h
  unfold Json.orElse
  cases hj : fs.lookup f.name with
  | some j =>
    rw [hj] at h
    exact hf.read_of_stands _ _ h
  | none =>
    rw [hj] at h
    exact congrArg some h.symm

theorem bind_eq_some {x : Option α} {f : α → Option ρ} {a : α} {r : ρ} (hx : x = some a)
    (hf : f a = some r) : x.bind f = some r := Option.bind_eq_some_iff.mpr ⟨a, hx, hf⟩

variable {fields : List (Field ρ)} {d r : ρ} {read : Json → Option ρ}

namespace Codec

/-- Records with these fields, and `d` where they are left out. -/
def record (d : ρ) (fields : List (Field ρ)) (read : Json → Option ρ) : Codec ρ where
  Storable r := ∀ f ∈ fields, f.codec.Storable (f.get r)
  write r := .obj (fields.map fun f => (f.name, f.codec.write (f.get r)))
  Stands r j := ∃ fs, j = .obj fs ∧ (fs.map Prod.fst).Nodup ∧ ∀ f ∈ fields, f.Held d r fs
  read := read

@[simp] theorem storable_record (d : ρ) (fields : List (Field ρ)) (read : Json → Option ρ) (r : ρ) :
    (record d fields read).Storable r ↔ ∀ f ∈ fields, f.codec.Storable (f.get r) := Iff.rfl

theorem lookup_write (hnames : (fields.map Field.name).Nodup) (r : ρ) {f : Field ρ}
    (hf : f ∈ fields) :
    (fields.map fun f => (f.name, f.codec.write (f.get r))).lookup f.name =
      some (f.codec.write (f.get r)) := by
  induction fields with
  | nil => cases hf
  | cons g rest ih =>
    obtain ⟨hg, hrest⟩ := List.nodup_cons.mp hnames
    rcases List.mem_cons.mp hf with rfl | hf
    · simp
    · have hne : f.name ≠ g.name := fun heq => hg (heq ▸ List.mem_map_of_mem hf)
      rw [List.map_cons, List.lookup_cons, beq_eq_false_iff_ne.mpr hne]
      exact ih hrest hf

theorem lookup_filter (names : List String) (fs : List (String × Json)) (name : String) :
    (fs.filter fun f => !names.contains f.1).lookup name =
      if name ∈ names then none else fs.lookup name := by
  induction fs with
  | nil => simp
  | cons f rest ih =>
    obtain ⟨key, j⟩ := f
    by_cases hkey : key ∈ names
    · rw [List.filter_cons_of_neg (by simpa using hkey), ih, List.lookup_cons]
      by_cases heq : name = key
      · rw [heq, if_pos hkey, if_pos hkey]
      · rw [beq_eq_false_iff_ne.mpr heq]
    · rw [List.filter_cons_of_pos (by simpa using hkey), List.lookup_cons, List.lookup_cons]
      by_cases heq : name = key
      · rw [heq, if_neg hkey, beq_self_eq_true]
      · rw [beq_eq_false_iff_ne.mpr heq, ih]

/-- A lawful codec of records whose default is `d`: what is written is read also without the fields
that are written as those of `d`. -/
structure Lenient (φ : Codec ρ) (d : ρ) : Prop where
  lawful : φ.Lawful
  default : φ.Storable d
  read_without : ∀ r, φ.Storable r → ∀ names : List String,
    (∀ name ∈ names, (φ.write r).field? name = (φ.write d).field? name) →
    φ.read ((φ.write r).without names) = some r

theorem lenient_record (hnames : (fields.map Field.name).Nodup)
    (hfields : ∀ f ∈ fields, f.codec.Lawful) (hdefault : ∀ f ∈ fields, f.codec.Storable (f.get d))
    (hread : ∀ r fs, (∀ f ∈ fields, Json.orElse fs f.name f.codec.read (f.get d) = some (f.get r)) →
      read (.obj fs) = some r) : (record d fields read).Lenient d := by
  have hlawful : (record d fields read).Lawful := by
    constructor
    case stands_write =>
      intro r hr
      refine ⟨_, rfl, by rwa [List.map_map], ?_⟩
      intro f hf
      unfold Field.Held
      rw [lookup_write hnames r hf]
      exact (hfields f hf).stands_write _ (hr f hf)
    case read_of_stands =>
      rintro r j ⟨fs, rfl, -, hheld⟩
      exact hread r fs fun f hf => (hheld f hf).orElse (hfields f hf)
  refine ⟨hlawful, hdefault, ?_⟩
  intro r hr names hsame
  apply hlawful.read_of_stands
  refine ⟨_, rfl, ?_, ?_⟩
  · have hwritten :
        ((fields.map fun f => (f.name, f.codec.write (f.get r))).map Prod.fst).Nodup := by
      rwa [List.map_map]
    exact hwritten.sublist (List.filter_sublist.map Prod.fst)
  · intro f hf
    unfold Field.Held
    rw [lookup_filter]
    by_cases hmem : f.name ∈ names
    · -- written alike, the two values are alike
      have hwrite := hsame f.name hmem
      simp only [record, Json.field?, lookup_write hnames _ hf, Option.some.injEq] at hwrite
      have hvalue := (hfields f hf).read_write (hr f hf)
      rw [hwrite, (hfields f hf).read_write (hdefault f hf)] at hvalue
      rw [if_pos hmem]
      exact (Option.some.inj hvalue).symm
    · rw [if_neg hmem, lookup_write hnames r hf]
      exact (hfields f hf).stands_write _ (hr f hf)

end Codec

end Document

end PoseRig
