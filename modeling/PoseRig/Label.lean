/-!
# Labelled enumerations

A finite choice each of whose members has a written label. Reading a label searches the list of all
members, so writing and reading use one table.
-/

set_option autoImplicit false

namespace PoseRig

class Labelled (α : Type) where
  all : List α
  label : α → String

def label {α : Type} [Labelled α] (a : α) : String := Labelled.label a

def ofLabel? (α : Type) [Labelled α] (s : String) : Option α :=
  (Labelled.all : List α).find? fun a => Labelled.label a == s

end PoseRig
