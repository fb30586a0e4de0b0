import PoseRig.Network.Names
import PoseRig.Proofs.Expr.Scan
import PoseRig.Proofs.Network.Names
import PoseRig.Property.PathReader

/-!
# Reading back the text of a path

The paths that can be read are those of at least one selector whose attributes are identifiers and
whose positions fit; of keys nothing is asked. What is read of a text is such a path, and the text
of such a path reads as that path, since reading a key undoes its escapes one by one.
-/

set_option autoImplicit false

namespace PoseRig

def Path.isIdentifier (name : String) : Bool :=
  match name.toList with
  | [] => false
  | c :: r => isIdentifierStart c && r.all isIdentifierChar

/-- An attribute that is an identifier, a position that fits, or any key. -/
def Selector.WellFormed : Selector → Prop
  | .field name => Path.isIdentifier name = true
  | .index i => i < Bounds.index
  | .key _ => True

namespace Path

structure WellFormed (p : Path) : Prop where
  selectors_ne_nil : p.selectors ≠ []
  selectors : ∀ s ∈ p.selectors, s.WellFormed

variable {total : Nat} {quote c : Char} {r body rest : List Char} {s : Selector} {name : String}

theorem isIdentifier_iff :
    isIdentifier name = true ↔
      ∃ c r, name.toList = c :: r ∧ isIdentifierStart c = true ∧
        ∀ d ∈ r, isIdentifierChar d = true := by
  unfold isIdentifier
  cases name.toList with
  | nil => simp
  | cons c r => simp

theorem keyBody_cons (hescape : c ≠ '\\') (hquote : c ≠ quote)
    (h : keyBody quote r = .ok (body, rest)) : keyBody quote (c :: r) = .ok (c :: body, rest) := by
  simp [keyBody, hquote, h]

theorem keyBody_escaped (h : keyBody quote r = .ok (body, rest)) :
    keyBody quote ('\\' :: c :: r) = .ok (c :: body, rest) := by
  rw [keyBody, h]

theorem keyBody_flatMap_escapeKey (key rest : List Char) :
    keyBody '"' (key.flatMap Selector.escapeKey ++ '"' :: rest) = .ok (key, rest) := by
  induction key with
  | nil => simp [keyBody]
  | cons c r ih =>
    rw [List.flatMap_cons, List.append_assoc, Selector.escapeKey]
    split
    · exact keyBody_escaped ih
    · rename_i hplain
      obtain ⟨hquote, hescape⟩ := not_or.mp hplain
      exact keyBody_cons hescape hquote ih

/-- What follows an identifier: nothing, or a character that no identifier goes on with. -/
def Apart (rest : List Char) : Prop := ∀ c ∈ rest.head?, isIdentifierChar c = false

theorem Apart.takeWhile (h : Apart rest) : rest.takeWhile isIdentifierChar = [] := by
  cases rest with
  | nil => rfl
  | cons c r => rw [List.takeWhile_cons_of_neg (by simp [h c rfl])]

theorem Apart.dropWhile (h : Apart rest) : rest.dropWhile isIdentifierChar = rest := by
  cases rest with
  | nil => rfl
  | cons c r => rw [List.dropWhile_cons_of_neg (by simp [h c rfl])]

theorem forgetLength_bracket_key (total : Nat) (hquote : c = '"' ∨ c = '\'')
    (h : keyBody c r = .ok (body, ']' :: rest)) :
    forgetLength (bracket total (c :: r)) = .ok (.key (String.ofList body), rest) := by
  simp only [bracket, if_pos hquote]
  split
  · simp_all
  · simp_all [forgetLength]
  · simp_all

theorem forgetLength_bracket_index (total : Nat) (hdigit : c.isDigit = true)
    (hclosing : r.dropWhile Char.isDigit = ']' :: rest)
    (hfits : Decimal.natOfDigits (c :: r.takeWhile Char.isDigit) < Bounds.index) :
    forgetLength (bracket total (c :: r)) =
      .ok (.index (Decimal.natOfDigits (c :: r.takeWhile Char.isDigit)), rest) := by
  have hquote : ¬(c = '"' ∨ c = '\'') := by
    rintro (rfl | rfl) <;> cases hdigit
  simp only [bracket, if_neg hquote, if_pos hdigit, if_pos hfits]
  split
  · simp_all [forgetLength]
  · simp_all

theorem forgetLength_identifier (total : Nat) (hc : isIdentifierStart c = true)
    (hr : ∀ d ∈ r, isIdentifierChar d = true) (hrest : Apart rest) :
    forgetLength (identifier total (c :: r ++ rest)) =
      .ok (.field (String.ofList (c :: r)), rest) := by
  have htake : (r ++ rest).takeWhile isIdentifierChar = r := by
    rw [List.takeWhile_append_of_pos hr, hrest.takeWhile, List.append_nil]
  have hdrop : (r ++ rest).dropWhile isIdentifierChar = rest := by
    rw [List.dropWhile_append_of_pos hr, hrest.dropWhile]
  simp only [List.cons_append, identifier, if_pos hc, forgetLength, htake, hdrop]

theorem forgetLength_bracket_toDigits (total i : Nat) (hi : i < Bounds.index) (rest : List Char) :
    forgetLength (bracket total (Nat.toDigits 10 i ++ ']' :: rest)) = .ok (.index i, rest) := by
  have hall := Decimal.isDigit_toDigits i
  have hvalue := Decimal.natOfDigits_toDigits i
  cases hdigits : Nat.toDigits 10 i with
  | nil => exact absurd hdigits Nat.toDigits_ne_nil
  | cons c r =>
    rw [hdigits] at hall hvalue
    obtain ⟨hc, hr⟩ := List.forall_mem_cons.mp hall
    have htake : (r ++ ']' :: rest).takeWhile Char.isDigit = r := by
      rw [List.takeWhile_append_of_pos hr, List.takeWhile_cons_of_neg (by decide), List.append_nil]
    have hdrop : (r ++ ']' :: rest).dropWhile Char.isDigit = ']' :: rest := by
      rw [List.dropWhile_append_of_pos hr, List.dropWhile_cons_of_neg (by decide)]
    have hread := forgetLength_bracket_index total hc hdrop (by rwa [htake, hvalue])
    rwa [htake, hvalue] at hread

theorem forgetLength_bracket_chars (hs : s.WellFormed) (hfield : ∀ name, s ≠ .field name)
    (total : Nat) (rest : List Char) :
    ∃ inner, s.chars ++ rest = '[' :: inner ∧
      forgetLength (bracket total inner) = .ok (s, rest) := by
  cases s with
  | field name => exact absurd rfl (hfield name)
  | index i =>
    refine ⟨Nat.toDigits 10 i ++ ']' :: rest, by simp [Selector.chars], ?_⟩
    exact forgetLength_bracket_toDigits total i hs rest
  | key name =>
    refine ⟨'"' :: (name.toList.flatMap Selector.escapeKey ++ '"' :: ']' :: rest),
      by simp [Selector.chars], ?_⟩
    have hread := forgetLength_bracket_key total (Or.inl rfl)
      (keyBody_flatMap_escapeKey name.toList (']' :: rest))
    rwa [String.ofList_toList] at hread

theorem followingChars_eq (hfield : ∀ name, s ≠ .field name) : s.followingChars = s.chars := by
  cases s with
  | field name => exact absurd rfl (hfield name)
  | index i => rfl
  | key name => rfl

theorem forgetLength_identifier_toList {name : String} (hs : (Selector.field name).WellFormed)
    (total : Nat) (hrest : Apart rest) :
    forgetLength (identifier total (name.toList ++ rest)) = .ok (.field name, rest) := by
  obtain ⟨c, r, hname, hc, hr⟩ := isIdentifier_iff.mp hs
  have hread := forgetLength_identifier total hc hr hrest
  rwa [← hname, String.ofList_toList] at hread

theorem eq_of_forgetLength {x : Read r} (h : forgetLength x = .ok (s, rest)) :
    ∃ hlength, x = .ok (s, ⟨rest, hlength⟩) := by
  rcases x with e | ⟨s', rest', hlength⟩
  · cases h
  · cases h
    exact ⟨hlength, rfl⟩

theorem following_bracket (h : forgetLength (bracket total r) = .ok (s, rest)) :
    following total ('[' :: r) = (following total rest).map (s :: ·) := by
  obtain ⟨hlength, hread⟩ := eq_of_forgetLength h
  rw [following, hread]
  dsimp only
  cases following total rest <;> rfl

theorem following_point (h : forgetLength (identifier total r) = .ok (s, rest)) :
    following total ('.' :: r) = (following total rest).map (s :: ·) := by
  obtain ⟨hlength, hread⟩ := eq_of_forgetLength h
  rw [following, hread]
  dsimp only
  cases following total rest <;> rfl

theorem following_cons (hs : s.WellFormed) (hrest : Apart rest) :
    following total (s.followingChars ++ rest) = (following total rest).map (s :: ·) := by
  by_cases hfield : ∃ name, s = .field name
  · obtain ⟨name, rfl⟩ := hfield
    exact following_point (forgetLength_identifier_toList hs total hrest)
  · have hbracket := forgetLength_bracket_chars hs (not_exists.mp hfield) total rest
    obtain ⟨inner, hchars, hread⟩ := hbracket
    rw [followingChars_eq (not_exists.mp hfield), hchars]
    exact following_bracket hread

theorem apart_flatMap (ss : List Selector) : Apart (ss.flatMap Selector.followingChars) := by
  rintro c hc
  cases ss with
  | nil => cases hc
  | cons s r => cases s <;> exact Option.some.inj hc ▸ rfl

theorem following_flatMap (total : Nat) {ss : List Selector} (hs : ∀ s ∈ ss, s.WellFormed) :
    following total (ss.flatMap Selector.followingChars) = .ok ss := by
  induction ss with
  | nil => rw [List.flatMap_nil, following]
  | cons s r ih =>
    obtain ⟨hs, hr⟩ := List.forall_mem_cons.mp hs
    rw [List.flatMap_cons, following_cons hs (apart_flatMap r), ih hr]
    rfl

theorem isIdentifierStart_code (h : isIdentifierStart c = true) : 0x41 ≤ c.toNat ∧ c.toNat ≤ 0x7A :=
  Token.isNameStart_code h

theorem leading_chars (hs : s.WellFormed) (hrest : Apart rest) :
    leading (s.chars ++ rest) = .ok (s, rest) := by
  by_cases hfield : ∃ name, s = .field name
  · obtain ⟨name, rfl⟩ := hfield
    have hread := forgetLength_identifier_toList hs (name.toList ++ rest).length hrest
    obtain ⟨c, r, hname, hc, -⟩ := isIdentifier_iff.mp hs
    rw [hname] at hread
    rw [Selector.chars, hname]
    -- an identifier starts with neither mark, so it is the last branch that reads it
    unfold leading
    split
    · rename_i hcons
      obtain rfl := (List.cons.inj hcons).1
      cases hc
    · rename_i hcons
      obtain rfl := (List.cons.inj hcons).1
      cases hc
    · exact hread
  · have hbracket :=
      forgetLength_bracket_chars hs (not_exists.mp hfield) (s.chars ++ rest).length rest
    obtain ⟨inner, hchars, hread⟩ := hbracket
    rw [hchars] at hread ⊢
    exact hread

theorem not_all_isBlank (hs : s.WellFormed) (rest : List Char) :
    (s.chars ++ rest).all Text.isBlank = false := by
  by_cases hfield : ∃ name, s = .field name
  · obtain ⟨name, rfl⟩ := hfield
    obtain ⟨c, r, hname, hc, -⟩ := isIdentifier_iff.mp hs
    have hcode := isIdentifierStart_code hc
    have hblank : Text.isBlank c = false := Token.isBlank_of_code (by omega) (by omega)
    rw [Selector.chars, hname, List.cons_append, List.all_cons, hblank, Bool.false_and]
  · obtain ⟨inner, hchars, -⟩ := forgetLength_bracket_chars hs (not_exists.mp hfield) 0 rest
    rw [hchars]
    rfl

theorem parse_text_of_wellFormed {p : Path} (h : p.WellFormed) : parse p.text = .ok p := by
  obtain ⟨selectors⟩ := p
  cases selectors with
  | nil => exact absurd rfl h.selectors_ne_nil
  | cons s r =>
    obtain ⟨hs, hr⟩ := List.forall_mem_cons.mp h.selectors
    rw [parse, text, String.toList_ofList, chars, parseChars, not_all_isBlank hs,
      leading_chars hs (apart_flatMap r)]
    simp only [Bool.false_eq_true, if_false, following_flatMap _ hr]

theorem wellFormed_bracket {x : { cs : List Char // cs.length < r.length }}
    (h : bracket total r = .ok (s, x)) : s.WellFormed := by
  unfold bracket at h
  split at h
  · cases h
  · split at h
    · split at h
      · cases h
      · cases h
        trivial
      · cases h
    · split at h
      · dsimp only at h
        split at h
        · split at h
          · cases h
            assumption
          · cases h
        · cases h
      · cases h

theorem wellFormed_identifier {x : { cs : List Char // cs.length < r.length }}
    (h : identifier total r = .ok (s, x)) : s.WellFormed := by
  unfold identifier at h
  split at h
  · cases h
  · split at h
    · cases h
      refine isIdentifier_iff.mpr ⟨_, _, String.toList_ofList, ‹_›, ?_⟩
      exact fun d hd => List.all_eq_true.mp List.all_takeWhile d hd
    · cases h

theorem wellFormed_following {cs : List Char} {ss : List Selector}
    (h : following total cs = .ok ss) : ∀ s ∈ ss, s.WellFormed := by
  fun_induction following total cs generalizing ss with
  | case1 =>
    cases h
    exact List.forall_mem_nil _
  | case4 r s rest hbracket ss' hfollowing ih =>
    cases h
    exact List.forall_mem_cons.mpr ⟨wellFormed_bracket hbracket, ih hfollowing⟩
  | case7 r s rest hidentifier ss' hfollowing ih =>
    cases h
    exact List.forall_mem_cons.mpr ⟨wellFormed_identifier hidentifier, ih hfollowing⟩
  | _ => cases h

theorem wellFormed_leading {cs : List Char} (h : leading cs = .ok (s, rest)) : s.WellFormed := by
  unfold leading at h
  split at h
  · obtain ⟨hlength, hread⟩ := eq_of_forgetLength h
    exact wellFormed_bracket hread
  · cases h
  · obtain ⟨hlength, hread⟩ := eq_of_forgetLength h
    exact wellFormed_identifier hread

theorem wellFormed_of_parse {text : String} {p : Path} (h : parse text = .ok p) : p.WellFormed := by
  unfold parse parseChars at h
  split at h
  · cases h
  · split at h
    · cases h
    · split at h
      · cases h
      · rename_i s rest hleading _ ss hfollowing
        cases h
        constructor
        · exact List.cons_ne_nil _ _
        · exact List.forall_mem_cons.mpr
            ⟨wellFormed_leading hleading, wellFormed_following hfollowing⟩

theorem wellFormed_evalTime (bone constraint : String) : (evalTime bone constraint).WellFormed := by
  constructor
  · exact List.cons_ne_nil _ _
  · simp only [evalTime, ofConstraint, List.cons_append, List.nil_append, List.forall_mem_cons,
      Selector.WellFormed]
    exact ⟨by decide, by decide, trivial, by decide, trivial, by decide, List.forall_mem_nil _⟩

theorem wellFormed_influence (pose : String) : (influence pose).WellFormed := by
  constructor
  · exact List.cons_ne_nil _ _
  · simp only [influence, List.forall_mem_cons, Selector.WellFormed]
    exact ⟨by decide, trivial, by decide, List.forall_mem_nil _⟩

/-- The text of a path reads as that path exactly when the path is well formed, as is all that
is read of any text. So the texts of compiled paths still tell the constraint or the pose that
they are for. -/
theorem parse_text :
    (∀ p : Path, p.WellFormed ↔ parse p.text = .ok p) ∧
      (∀ s p, parse s = .ok p → p.WellFormed ∧ parse p.text = .ok p) ∧
      (∀ bone constraint, ∃ p, parse (evalTime bone constraint).text = .ok p ∧
        p.constraint? = some constraint) ∧
      ∀ pose, ∃ p, parse (influence pose).text = .ok p ∧ p.influenceTarget? = some pose := by
  refine ⟨?_, ?_, ?_, ?_⟩
  · exact fun p => ⟨parse_text_of_wellFormed, wellFormed_of_parse⟩
  · intro s p h
    have hp := wellFormed_of_parse h
    exact ⟨hp, parse_text_of_wellFormed hp⟩
  · intro bone constraint
    have hread := parse_text_of_wellFormed (wellFormed_evalTime bone constraint)
    exact ⟨_, hread, constraint?_evalTime bone constraint⟩
  · intro pose
    have hread := parse_text_of_wellFormed (wellFormed_influence pose)
    exact ⟨_, hread, influenceTarget?_influence pose⟩

def crookedPath : Path :=
  ⟨[.key "", .field "_a1", .index 18446744073709551615, .key "\\", .key "\"]", .key "ü.[x]"]⟩

theorem parse_text_crookedPath :
    crookedPath.text = "[\"\"]._a1[18446744073709551615][\"\\\\\"][\"\\\"]\"][\"ü.[x]\"]" ∧
      parse crookedPath.text = .ok crookedPath := by
  have hwell : crookedPath.WellFormed := by
    constructor
    · exact List.cons_ne_nil _ _
    · simp only [crookedPath, List.forall_mem_cons, Selector.WellFormed]
      exact ⟨trivial, by decide, by decide, trivial, trivial, trivial, List.forall_mem_nil _⟩
  exact ⟨by decide +kernel, (parse_text.1 crookedPath).mp hwell⟩

end Path

end PoseRig
