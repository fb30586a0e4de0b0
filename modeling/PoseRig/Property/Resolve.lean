import PoseRig.Property.Value
import PoseRig.Property.Path

/-!
# Resolving paths

A path starts from a source, which tells attributes, keys and positions apart; every step after the
first is taken in the value reached so far, where attributes and keys alike name record members.
-/

set_option autoImplicit false

namespace PoseRig

structure Source where
  field? : String → Option Value
  key? : String → Option Value
  index? : Nat → Option Value

namespace Source

def lookup? (s : Source) : Selector → Option Value
  | .field name => s.field? name
  | .key name => s.key? name
  | .index i => s.index? i

end Source

def Value.source (v : Value) : Source := ⟨v.member?, v.member?, v.component?⟩

inductive ResolveError where
  | empty
  | missing (path : Path) (step : Selector)
  deriving DecidableEq, Repr

def ResolveError.message : ResolveError → String
  | .empty => "empty path"
  | .missing path step => "'" ++ path.text ++ "' does not resolve at '" ++ step.text ++ "'"

namespace Path

/-- Steps from a value along selectors of `whole`, which is named when a step fails. -/
def walk (whole : Path) (v : Value) : List Selector → Except ResolveError Value
  | [] => .ok v
  | s :: r =>
    match v.source.lookup? s with
    | some next => walk whole next r
    | none => .error (.missing whole s)

def resolve (p : Path) (root : Source) : Except ResolveError Value :=
  match p.selectors with
  | [] => .error .empty
  | s :: r =>
    match root.lookup? s with
    | some v => walk p v r
    | none => .error (.missing p s)

end Path

end PoseRig
