import PoseRig.Property.Path
import PoseRig.Number.Bounds
import PoseRig.Number.Decimal
import PoseRig.Text.Blank

/-!
# Reading property paths

A path starts with an identifier or a bracket; after that come `.identifier`, `[digits]` and quoted
keys in brackets, in either kind of quote, where a backslash makes the next character stand for
itself. Nothing else is accepted. Positions in messages count characters.
-/

set_option autoImplicit false

namespace PoseRig

inductive PathError where
  | empty
  | leadingPoint
  | unexpected (c : Char) (position : Nat)
  | notIdentifier (c : Char) (position : Nat)
  | trailingPoint
  | danglingEscape
  | unterminatedKey
  | keyNotClosed
  | indexNotClosed
  | indexTooLarge (digits : String)
  | badSelector (position : Nat)
  deriving DecidableEq, Repr

def PathError.message : PathError → String
  | .empty => "empty path"
  | .leadingPoint => "invalid property path: leading '.'"
  | .unexpected c position => s!"invalid property path: unexpected '{c}' at {position}"
  | .notIdentifier c position =>
    s!"invalid property path: expected identifier, found '{c}' at {position}"
  | .trailingPoint => "invalid property path: path ends with '.'"
  | .danglingEscape => "invalid property path: dangling escape"
  | .unterminatedKey => "invalid property path: unterminated key"
  | .keyNotClosed => "invalid property path: expected ']' after key"
  | .indexNotClosed => "invalid property path: expected ']' after index"
  | .indexTooLarge digits =>
    s!"invalid property path: bad index '{digits}': number too large to fit in target type"
  | .badSelector position => s!"invalid property path: bad selector at {position}"

namespace Path

def isIdentifierStart (c : Char) : Bool := c.isAlpha || c == '_'

def isIdentifierChar (c : Char) : Bool := c.isAlphanum || c == '_'

/-- The characters of a key up to its closing quote, and what follows the quote. -/
def keyBody (quote : Char) : List Char → Except PathError (List Char × List Char)
  | [] => .error .unterminatedKey
  | '\\' :: r =>
    match r with
    | [] => .error .danglingEscape
    | c :: r =>
      match keyBody quote r with
      | .ok (body, rest) => .ok (c :: body, rest)
      | .error e => .error e
  | c :: r =>
    if c = quote then .ok ([], r)
    else
      match keyBody quote r with
      | .ok (body, rest) => .ok (c :: body, rest)
      | .error e => .error e

theorem keyBody_length (quote : Char) (cs body rest : List Char)
    (h : keyBody quote cs = .ok (body, rest)) : rest.length < cs.length := by
  fun_induction keyBody quote cs generalizing body rest with
  | case1 => simp at h
  | case2 => simp at h
  | case3 c r b t _ ih =>
    simp only [Except.ok.injEq, Prod.mk.injEq] at h
    have := ih b t (by assumption)
    obtain ⟨_, rfl⟩ := h
    simp only [List.length_cons]; omega
  | case4 => simp at h
  | case5 r _ =>
    simp only [Except.ok.injEq, Prod.mk.injEq] at h
    obtain ⟨_, rfl⟩ := h
    simp
  | case6 c r _ _ b t _ ih =>
    simp only [Except.ok.injEq, Prod.mk.injEq] at h
    have := ih b t (by assumption)
    obtain ⟨_, rfl⟩ := h
    simp only [List.length_cons]; omega
  | case7 => simp at h

/-- A selector, and what is left of the characters, which is less than there was. -/
abbrev Read (cs : List Char) :=
  Except PathError (Selector × { r : List Char // r.length < cs.length })

def bracket (total : Nat) (cs : List Char) : Read cs :=
  match cs with
  | [] => .error (.badSelector (total - 1))
  | c :: r =>
    if c = '"' ∨ c = '\'' then
      match h : keyBody c r with
      | .error e => .error e
      | .ok (body, ']' :: rest) =>
        .ok (.key (String.ofList body), ⟨rest, by
          have := keyBody_length c r body (']' :: rest) h
          simp only [List.length_cons] at *; omega⟩)
      | .ok (_, _) => .error .keyNotClosed
    else if c.isDigit then
      let digits := c :: r.takeWhile Char.isDigit
      match h : r.dropWhile Char.isDigit with
      | ']' :: rest =>
        if Decimal.natOfDigits digits < Bounds.index then
          .ok (.index (Decimal.natOfDigits digits), ⟨rest, by
            have := (List.dropWhile_sublist Char.isDigit (l := r)).length_le
            rw [h] at this
            simp only [List.length_cons] at *; omega⟩)
        else .error (.indexTooLarge (String.ofList digits))
      | _ => .error .indexNotClosed
    else .error (.badSelector (total - (r.length + 2)))

def identifier (total : Nat) (cs : List Char) : Read cs :=
  match cs with
  | [] => .error .trailingPoint
  | c :: r =>
    if isIdentifierStart c then
      .ok (.field (String.ofList (c :: r.takeWhile isIdentifierChar)),
        ⟨r.dropWhile isIdentifierChar, by
          have := (List.dropWhile_sublist isIdentifierChar (l := r)).length_le
          simp only [List.length_cons]; omega⟩)
    else .error (.notIdentifier c (total - (r.length + 1)))

def following (total : Nat) (cs : List Char) : Except PathError (List Selector) :=
  match cs with
  | [] => .ok []
  | '[' :: r =>
    match bracket total r with
    | .error e => .error e
    | .ok (s, rest) =>
      match following total rest.1 with
      | .error e => .error e
      | .ok ss => .ok (s :: ss)
  | '.' :: r =>
    match identifier total r with
    | .error e => .error e
    | .ok (s, rest) =>
      match following total rest.1 with
      | .error e => .error e
      | .ok ss => .ok (s :: ss)
  | c :: r => .error (.unexpected c (total - (r.length + 1)))
termination_by cs.length
decreasing_by
  · have := rest.2; simp only [List.length_cons]; omega
  · have := rest.2; simp only [List.length_cons]; omega

def forgetLength {cs : List Char} : Read cs → Except PathError (Selector × List Char)
  | .error e => .error e
  | .ok (s, rest) => .ok (s, rest.1)

def leading (cs : List Char) : Except PathError (Selector × List Char) :=
  match cs with
  | '[' :: r => forgetLength (bracket cs.length r)
  | '.' :: _ => .error .leadingPoint
  | _ => forgetLength (identifier cs.length cs)

def parseChars (cs : List Char) : Except PathError Path :=
  if cs.all Text.isBlank then .error .empty
  else
    match leading cs with
    | .error e => .error e
    | .ok (s, rest) =>
      match following cs.length rest with
      | .error e => .error e
      | .ok ss => .ok ⟨s :: ss⟩

def parse (s : String) : Except PathError Path := parseChars s.toList

end Path

end PoseRig
