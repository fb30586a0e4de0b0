/-!
# Named entries in insertion order

A table binds each name at most once and keeps the order in which names were first bound. Binding a
bound name again replaces its value in place, a new name goes to the end, and removing one keeps the
order of the rest.
-/

set_option autoImplicit false

namespace PoseRig

universe u v

variable {α : Type u} {β : Type v}

namespace Entries

/-- Binds `name` in a list of entries: in place when bound, else at the end. -/
def put (name : String) (a : α) : List (String × α) → List (String × α)
  | [] => [(name, a)]
  | e :: r => if e.1 = name then (name, a) :: r else e :: put name a r

def names (es : List (String × α)) : List String := es.map Prod.fst

def get? (name : String) : List (String × α) → Option α
  | [] => none
  | e :: r => if e.1 = name then some e.2 else get? name r

theorem names_put (name : String) (a : α) (es : List (String × α)) :
    names (put name a es) = if name ∈ names es then names es else names es ++ [name] := by
  induction es with
  | nil => simp [put, names]
  | cons e r ih =>
    by_cases h : e.1 = name
    · simp [put, names, h]
    · have h' : ¬ name = e.1 := fun x => h x.symm
      simp only [names] at ih
      simp only [put, names, h, if_false, List.map_cons, List.mem_cons, h', false_or, ih]
      split <;> simp_all

theorem nodup_put (name : String) (a : α) {es : List (String × α)} (h : (names es).Nodup) :
    (names (put name a es)).Nodup := by
  rw [names_put]
  split
  · exact h
  · rename_i hn
    refine List.nodup_append.mpr ⟨h, by simp, ?_⟩
    intro x hx y hy
    simp only [List.mem_singleton] at hy
    subst hy
    exact fun hxy => hn (hxy ▸ hx)

theorem get?_put (name other : String) (a : α) (es : List (String × α)) :
    get? other (put name a es) = if other = name then some a else get? other es := by
  induction es with
  | nil => simp [put, get?, eq_comm]
  | cons e r ih =>
    by_cases h : e.1 = name
    · by_cases ho : other = name
      · simp [put, get?, h, ho]
      · have : ¬ name = other := fun x => ho x.symm
        simp [put, get?, h, ho, this]
    · by_cases he : e.1 = other
      · have : ¬ other = name := fun x => h (he.trans x)
        simp [put, get?, he, this]
      · simp [put, get?, h, he, ih]

theorem isSome_get? (name : String) (es : List (String × α)) :
    (get? name es).isSome ↔ name ∈ names es := by
  induction es with
  | nil => simp [get?, names]
  | cons e r ih =>
    by_cases h : e.1 = name
    · simp [get?, names, h]
    · have h' : ¬ name = e.1 := fun x => h x.symm
      simp only [names] at ih
      simp only [get?, h, if_false, ih, names, List.map_cons, List.mem_cons, h', false_or]

end Entries

structure Table (α : Type u) where
  entries : List (String × α)
  nodup : (Entries.names entries).Nodup

namespace Table

instance : Inhabited (Table α) := ⟨⟨[], by simp [Entries.names]⟩⟩

def empty : Table α := ⟨[], by simp [Entries.names]⟩

theorem ext_entries {s t : Table α} (h : s.entries = t.entries) : s = t := by
  cases s; cases t; cases h; rfl

def names (t : Table α) : List String := Entries.names t.entries

def values (t : Table α) : List α := t.entries.map Prod.snd

def size (t : Table α) : Nat := t.entries.length

def get? (t : Table α) (name : String) : Option α := Entries.get? name t.entries

def contains (t : Table α) (name : String) : Bool := (t.get? name).isSome

def insert (t : Table α) (name : String) (a : α) : Table α :=
  ⟨Entries.put name a t.entries, Entries.nodup_put name a t.nodup⟩

def filter (t : Table α) (keep : String → α → Bool) : Table α :=
  ⟨t.entries.filter fun e => keep e.1 e.2,
    t.nodup.sublist ((List.filter_sublist).map Prod.fst)⟩

def erase (t : Table α) (name : String) : Table α := t.filter fun n _ => n != name

def map (t : Table α) (f : String → α → β) : Table β :=
  ⟨t.entries.map fun e => (e.1, f e.1 e.2), by
    have : Entries.names (t.entries.map fun e => (e.1, f e.1 e.2)) = Entries.names t.entries := by
      simp [Entries.names, Function.comp_def]
    rw [this]; exact t.nodup⟩

def update (t : Table α) (name : String) (f : α → α) : Table α :=
  t.map fun n a => if n = name then f a else a

/-- Binds the pairs in order, so that of two with one name the later counts. -/
def ofList (es : List (String × α)) : Table α :=
  es.foldl (fun t e => t.insert e.1 e.2) empty

@[simp] theorem get?_empty (name : String) : (empty : Table α).get? name = none := rfl

theorem get?_insert (t : Table α) (name other : String) (a : α) :
    (t.insert name a).get? other = if other = name then some a else t.get? other :=
  Entries.get?_put name other a t.entries

theorem names_insert (t : Table α) (name : String) (a : α) :
    (t.insert name a).names = if name ∈ t.names then t.names else t.names ++ [name] :=
  Entries.names_put name a t.entries

theorem contains_iff (t : Table α) (name : String) : t.contains name ↔ name ∈ t.names :=
  Entries.isSome_get? name t.entries

@[simp] theorem names_map (t : Table α) (f : String → α → β) : (t.map f).names = t.names := by
  simp [names, Entries.names, map, Function.comp_def]

theorem get?_map (t : Table α) (f : String → α → β) (name : String) :
    (t.map f).get? name = (t.get? name).map (f name) := by
  obtain ⟨es, _⟩ := t
  simp only [get?, map]
  induction es with
  | nil => rfl
  | cons e r ih =>
    rename_i h
    have hr : (Entries.names r).Nodup := (List.nodup_cons.mp h).2
    by_cases he : e.1 = name
    · simp [Entries.get?, he]
    · simpa [Entries.get?, he] using ih hr

theorem get?_update (t : Table α) (name other : String) (f : α → α) :
    (t.update name f).get? other =
      if other = name then (t.get? other).map f else t.get? other := by
  rw [update, get?_map]
  by_cases h : other = name <;> simp [h]

end Table

end PoseRig
