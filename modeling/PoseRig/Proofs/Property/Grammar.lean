import Mathlib.Data.List.Forall2
import PoseRig.Proofs.Property.RoundTrip

/-!
# The grammar of property paths

A path is written as one selector and then others, each of which is a bracket or, after a point, an
identifier; the first has no point. What the parser reads off a text is written there, and it reads
everything that is written so, hence it accepts the texts of the grammar and no other.
-/

set_option autoImplicit false

namespace PoseRig

namespace Path

def IsLetter (c : Char) : Prop := 'A' ≤ c ∧ c ≤ 'Z' ∨ 'a' ≤ c ∧ c ≤ 'z'

def IsDigit (c : Char) : Prop := '0' ≤ c ∧ c ≤ '9'

inductive IdentifierText : List Char → Prop where
  | intro {c : Char} {r : List Char} (start : IsLetter c ∨ c = '_')
      (more : ∀ d ∈ r, IsLetter d ∨ IsDigit d ∨ d = '_') : IdentifierText (c :: r)

/-- What may stand between two such quotes, and the key that it stands for: any character but the
quote and a backslash for itself, or a backslash and any character for that character. -/
inductive KeyText (quote : Char) : List Char → List Char → Prop where
  | nil : KeyText quote [] []
  | plain {c : Char} {body key : List Char} (unquoted : c ≠ quote) (unescaped : c ≠ '\\')
      (h : KeyText quote body key) : KeyText quote (c :: body) (c :: key)
  | escaped (c : Char) {body key : List Char} (h : KeyText quote body key) :
      KeyText quote ('\\' :: c :: body) (c :: key)

inductive BracketText : List Char → Selector → Prop where
  | index {ds : List Char} (nonempty : ds ≠ []) (digits : ∀ d ∈ ds, IsDigit d)
      (fits : Nat.ofDigitChars 10 ds 0 < 2 ^ 64) :
      BracketText ('[' :: (ds ++ [']'])) (.index (Nat.ofDigitChars 10 ds 0))
  | key {quote : Char} {body key : List Char} (quotes : quote = '"' ∨ quote = '\'')
      (h : KeyText quote body key) :
      BracketText ('[' :: quote :: (body ++ [quote, ']'])) (.key (String.ofList key))

inductive LeadingText : List Char → Selector → Prop where
  | identifier {cs : List Char} (h : IdentifierText cs) : LeadingText cs (.field (String.ofList cs))
  | bracket {cs : List Char} {s : Selector} (h : BracketText cs s) : LeadingText cs s

inductive FollowingText : List Char → Selector → Prop where
  | identifier {cs : List Char} (h : IdentifierText cs) :
      FollowingText ('.' :: cs) (.field (String.ofList cs))
  | bracket {cs : List Char} {s : Selector} (h : BracketText cs s) : FollowingText cs s

/-- The characters are a first selector of the path and then the others. -/
def Spells (cs : List Char) (p : Path) : Prop :=
  ∃ first more s ss, cs = first ++ more.flatten ∧ p.selectors = s :: ss ∧ LeadingText first s ∧
    List.Forall₂ FollowingText more ss

variable {total : Nat} {c quote : Char} {cs r rest text body key : List Char} {s : Selector}
  {ss : List Selector}

theorem isDigit_iff : c.isDigit = true ↔ IsDigit c :=
  Bool.and_eq_true_iff.trans (and_congr decide_eq_true_iff decide_eq_true_iff)

theorem isAlpha_iff : c.isAlpha = true ↔ IsLetter c := by
  have hupper : c.isUpper = true ↔ 'A' ≤ c ∧ c ≤ 'Z' := decide_eq_true_iff
  have hlower : c.isLower = true ↔ 'a' ≤ c ∧ c ≤ 'z' :=
    Bool.and_eq_true_iff.trans (and_congr decide_eq_true_iff decide_eq_true_iff)
  exact Bool.or_eq_true_iff.trans (or_congr hupper hlower)

theorem isIdentifierStart_iff : isIdentifierStart c = true ↔ IsLetter c ∨ c = '_' := by
  simp [isIdentifierStart, isAlpha_iff]

theorem isIdentifierChar_iff :
    isIdentifierChar c = true ↔ IsLetter c ∨ IsDigit c ∨ c = '_' := by
  simp [isIdentifierChar, Char.isAlphanum, isAlpha_iff, isDigit_iff, or_assoc]

theorem keyText_of_keyBody (h : keyBody quote cs = .ok (key, rest)) :
    ∃ body, KeyText quote body key ∧ cs = body ++ quote :: rest := by
  fun_induction keyBody quote cs generalizing key rest with
  | case3 c r key' rest' hread ih =>
    cases h
    obtain ⟨body, hbody, rfl⟩ := ih hread
    exact ⟨'\\' :: c :: body, .escaped c hbody, rfl⟩
  | case5 r _ =>
    cases h
    exact ⟨[], .nil, rfl⟩
  | case6 c r hescape hquote key' rest' hread ih =>
    cases h
    obtain ⟨body, hbody, rfl⟩ := ih hread
    refine ⟨c :: body, .plain hquote ?_ hbody, rfl⟩
    rintro rfl
    exact hescape rfl
  | _ => cases h

theorem KeyText.keyBody (h : KeyText quote body key) (hquote : quote ≠ '\\') (rest : List Char) :
    keyBody quote (body ++ quote :: rest) = .ok (key, rest) := by
  induction h with
  | nil => simp [Path.keyBody]
  | plain hne hescape _ ih => exact keyBody_cons hescape hne ih
  | escaped c _ ih => exact keyBody_escaped ih

theorem bracketText_of_bracket {x : { cs : List Char // cs.length < r.length }}
    (h : bracket total r = .ok (s, x)) : ∃ text, BracketText text s ∧ '[' :: r = text ++ x.1 := by
  unfold bracket at h
  split at h
  · cases h
  · rename_i c r
    split at h
    · rename_i hquote
      split at h
      · cases h
      · rename_i body rest hread
        cases h
        obtain ⟨text, htext, rfl⟩ := keyText_of_keyBody hread
        exact ⟨_, .key hquote htext, by simp⟩
      · cases h
    · split at h
      · rename_i hdigit
        dsimp only at h
        split at h
        · rename_i rest hrest
          split at h
          · rename_i hfits
            cases h
            refine ⟨_, .index (List.cons_ne_nil c (r.takeWhile Char.isDigit)) ?_ hfits, ?_⟩
            · intro d hd
              rcases List.mem_cons.mp hd with rfl | hd
              · exact isDigit_iff.mp hdigit
              · exact isDigit_iff.mp (List.all_eq_true.mp List.all_takeWhile d hd)
            · have hsplit := List.takeWhile_append_dropWhile (p := Char.isDigit) (l := r)
              rw [hrest] at hsplit
              simp [hsplit]
          · cases h
        · cases h
      · cases h

theorem BracketText.read (h : BracketText text s) (total : Nat) (rest : List Char) :
    ∃ inner, text ++ rest = '[' :: inner ∧ forgetLength (bracket total inner) = .ok (s, rest) := by
  cases h with
  | @index ds hne hdigits hfits =>
    refine ⟨ds ++ ']' :: rest, by simp, ?_⟩
    cases ds with
    | nil => exact absurd rfl hne
    | cons c r =>
      obtain ⟨hc, hr⟩ := List.forall_mem_cons.mp hdigits
      have hall : ∀ d ∈ r, d.isDigit = true := fun d hd => isDigit_iff.mpr (hr d hd)
      have htake : (r ++ ']' :: rest).takeWhile Char.isDigit = r := by
        rw [List.takeWhile_append_of_pos hall, List.takeWhile_cons_of_neg (by decide),
          List.append_nil]
      have hdrop : (r ++ ']' :: rest).dropWhile Char.isDigit = ']' :: rest := by
        rw [List.dropWhile_append_of_pos hall, List.dropWhile_cons_of_neg (by decide)]
      have hread := forgetLength_bracket_index total (isDigit_iff.mpr hc) hdrop (by rwa [htake])
      rwa [htake] at hread
  | @key quote body key hquote hkey =>
    refine ⟨quote :: (body ++ quote :: ']' :: rest), by simp, ?_⟩
    apply forgetLength_bracket_key total hquote
    apply hkey.keyBody
    rcases hquote with rfl | rfl <;> decide

theorem identifierText_of_identifier {x : { cs : List Char // cs.length < r.length }}
    (h : identifier total r = .ok (s, x)) :
    ∃ text, IdentifierText text ∧ s = .field (String.ofList text) ∧ r = text ++ x.1 := by
  unfold identifier at h
  split at h
  · cases h
  · rename_i c r
    split at h
    · rename_i hc
      cases h
      refine ⟨c :: r.takeWhile isIdentifierChar, .intro (isIdentifierStart_iff.mp hc) ?_, rfl, ?_⟩
      · intro d hd
        exact isIdentifierChar_iff.mp (List.all_eq_true.mp List.all_takeWhile d hd)
      · rw [List.cons_append, List.takeWhile_append_dropWhile]
    · cases h

theorem IdentifierText.read (h : IdentifierText text) (total : Nat) (hrest : Apart rest) :
    forgetLength (identifier total (text ++ rest)) = .ok (.field (String.ofList text), rest) := by
  cases h with
  | intro hc hr =>
    exact forgetLength_identifier total (isIdentifierStart_iff.mpr hc)
      (fun d hd => isIdentifierChar_iff.mpr (hr d hd)) hrest

theorem following_spelled (h : following total cs = .ok ss) :
    ∃ more, cs = more.flatten ∧ List.Forall₂ FollowingText more ss := by
  fun_induction following total cs generalizing ss with
  | case1 =>
    cases h
    exact ⟨[], rfl, .nil⟩
  | case4 r s rest hbracket ss' hfollowing ih =>
    cases h
    obtain ⟨more, hmore, hspelled⟩ := ih hfollowing
    obtain ⟨text, htext, hsplit⟩ := bracketText_of_bracket hbracket
    exact ⟨text :: more, by rw [List.flatten_cons, ← hmore, hsplit],
      .cons (.bracket htext) hspelled⟩
  | case7 r s rest hidentifier ss' hfollowing ih =>
    cases h
    obtain ⟨more, hmore, hspelled⟩ := ih hfollowing
    obtain ⟨text, htext, rfl, hsplit⟩ := identifierText_of_identifier hidentifier
    refine ⟨('.' :: text) :: more, ?_, .cons (.identifier htext) hspelled⟩
    rw [List.flatten_cons, ← hmore, List.cons_append, ← hsplit]
  | _ => cases h

theorem apart_flatten {more : List (List Char)} (h : List.Forall₂ FollowingText more ss) :
    Apart more.flatten := by
  intro c hc
  cases h with
  | nil => cases hc
  | cons hfirst _ =>
    cases hfirst with
    | identifier _ => exact Option.some.inj hc ▸ rfl
    | bracket hbracket => cases hbracket <;> exact Option.some.inj hc ▸ rfl

theorem following_flatten (total : Nat) {more : List (List Char)}
    (h : List.Forall₂ FollowingText more ss) : following total more.flatten = .ok ss := by
  induction h with
  | nil => rw [List.flatten_nil, following]
  | @cons text s more ss hfirst hmore ih =>
    rw [List.flatten_cons]
    cases hfirst with
    | identifier hidentifier =>
      rw [List.cons_append, following_point (hidentifier.read total (apart_flatten hmore)), ih]
      rfl
    | bracket hbracket =>
      obtain ⟨inner, hinner, hread⟩ := hbracket.read total more.flatten
      rw [hinner, following_bracket hread, ih]
      rfl

theorem leading_spelled (h : leading cs = .ok (s, rest)) :
    ∃ first, cs = first ++ rest ∧ LeadingText first s := by
  unfold leading at h
  split at h
  · obtain ⟨hlength, hread⟩ := eq_of_forgetLength h
    obtain ⟨text, htext, hsplit⟩ := bracketText_of_bracket hread
    exact ⟨text, hsplit, .bracket htext⟩
  · cases h
  · obtain ⟨hlength, hread⟩ := eq_of_forgetLength h
    obtain ⟨text, htext, rfl, hsplit⟩ := identifierText_of_identifier hread
    exact ⟨text, hsplit, .identifier htext⟩

theorem LeadingText.read (h : LeadingText text s) (hrest : Apart rest) :
    leading (text ++ rest) = .ok (s, rest) := by
  cases h with
  | bracket hbracket =>
    obtain ⟨inner, hinner, hread⟩ := hbracket.read (text ++ rest).length rest
    rw [hinner] at hread ⊢
    exact hread
  | identifier hidentifier =>
    have hread := hidentifier.read (text ++ rest).length hrest
    cases hidentifier with
    | @intro c r hc hr =>
      -- an identifier starts with neither mark, so it is the last branch that reads it
      have hstart := isIdentifierStart_iff.mpr hc
      unfold leading
      split
      · rename_i hcons
        obtain rfl := (List.cons.inj hcons).1
        cases hstart
      · rename_i hcons
        obtain rfl := (List.cons.inj hcons).1
        cases hstart
      · exact hread

theorem LeadingText.not_all_isBlank (h : LeadingText text s) (rest : List Char) :
    (text ++ rest).all Text.isBlank = false := by
  cases h with
  | bracket hbracket => cases hbracket <;> rfl
  | identifier hidentifier =>
    cases hidentifier with
    | @intro c r hc hr =>
      have hcode := isIdentifierStart_code (isIdentifierStart_iff.mpr hc)
      have hblank : Text.isBlank c = false := Token.isBlank_of_code (by omega) (by omega)
      rw [List.cons_append, List.all_cons, hblank, Bool.false_and]

theorem spells_of_parse {text : String} {p : Path} (h : parse text = .ok p) :
    Spells text.toList p := by
  unfold parse parseChars at h
  split at h
  · cases h
  · split at h
    · cases h
    · split at h
      · cases h
      · rename_i s rest hleading _ ss hfollowing
        cases h
        obtain ⟨first, hfirst, hlead⟩ := leading_spelled hleading
        obtain ⟨more, rfl, hmore⟩ := following_spelled hfollowing
        exact ⟨first, more, s, ss, hfirst, rfl, hlead, hmore⟩

theorem Spells.parse {text : String} {p : Path} (h : Spells text.toList p) :
    parse text = .ok p := by
  obtain ⟨first, more, s, ss, htext, hp, hfirst, hmore⟩ := h
  have hapart := apart_flatten hmore
  rw [Path.parse, htext, parseChars, hfirst.not_all_isBlank, hfirst.read hapart]
  simp only [Bool.false_eq_true, if_false, following_flatten _ hmore]
  rw [← hp]

/-- A text reads as a path exactly when it spells the path, so no text spells two, and every text
that spells none is refused. -/
theorem parse_iff_spells (text : String) :
    (∀ p, parse text = .ok p ↔ Spells text.toList p) ∧
      ((∃ e, parse text = .error e) ↔ ¬∃ p, Spells text.toList p) := by
  have hread : ∀ p, parse text = .ok p ↔ Spells text.toList p :=
    fun p => ⟨spells_of_parse, Spells.parse⟩
  refine ⟨hread, ?_⟩
  simp only [← hread]
  cases parse text <;> simp

end Path

end PoseRig
