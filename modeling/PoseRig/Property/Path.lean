/-!
# Property paths

A path is a list of selectors: attribute, position, or quoted key. It is written with a point before
every attribute but a first one; a key is written in double quotes, with a backslash before each
double quote and backslash.
-/

set_option autoImplicit false

namespace PoseRig

inductive Selector where
  | field (name : String)
  | index (i : Nat)
  | key (name : String)
  deriving DecidableEq, Repr, Inhabited

structure Path where
  selectors : List Selector
  deriving DecidableEq, Repr, Inhabited

namespace Selector

def escapeKey (c : Char) : List Char :=
  if c = '"' ∨ c = '\\' then ['\\', c] else [c]

def chars : Selector → List Char
  | .field name => name.toList
  | .index i => '[' :: Nat.toDigits 10 i ++ [']']
  | .key name => '[' :: '"' :: name.toList.flatMap escapeKey ++ ['"', ']']

def followingChars : Selector → List Char
  | .field name => '.' :: name.toList
  | s => s.chars

def text (s : Selector) : String := String.ofList s.chars

end Selector

namespace Path

def chars (p : Path) : List Char :=
  match p.selectors with
  | [] => []
  | s :: r => s.chars ++ r.flatMap Selector.followingChars

def text (p : Path) : String := String.ofList p.chars

end Path

end PoseRig
