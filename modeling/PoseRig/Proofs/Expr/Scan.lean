import PoseRig.Expr.Token
import PoseRig.Proofs.Number.Numeral

/-!
# Tokens at the start of a text

How the scanner takes one mark, name or numeral off the front of a text. Names and numerals go as
far as they can, so what follows one must delimit it: a mark or a blank does.
-/

set_option autoImplicit false

namespace PoseRig.Token

variable {total : Nat} {rest : List Char}

def isDelimiter (c : Char) : Bool := (mark? c).isSome || c == ' '

/-- What follows is delimited from what comes before it. -/
def Delimited (rest : List Char) : Prop := ∀ c ∈ rest.head?, isDelimiter c = true

theorem Delimited.cons {c : Char} (h : isDelimiter c = true) (cs : List Char) :
    Delimited (c :: cs) := by
  rintro d ⟨⟩
  exact h

theorem isDelimiter_cases {c : Char} (h : isDelimiter c = true) :
    c ∈ ['+', '-', '*', '/', '(', ')', ',', ' '] := by
  unfold isDelimiter mark? at h
  split at h <;> simp_all

theorem isDelimiter_ends {c : Char} (h : isDelimiter c = true) :
    isNumeral c = false ∧ isNameChar c = false ∧ c.isDigit = false ∧ c ≠ 'e' ∧ c ≠ 'E' := by
  have hall : (['+', '-', '*', '/', '(', ')', ',', ' '].all fun c =>
      !isNumeral c && !isNameChar c && !c.isDigit && c != 'e' && c != 'E') = true := rfl
  simpa [and_assoc] using List.all_eq_true.mp hall c (isDelimiter_cases h)

theorem isBlank_of_code {c : Char} (hlow : 0x21 ≤ c.toNat) (hhigh : c.toNat ≤ 0x84) :
    Text.isBlank c = false := by
  unfold Text.isBlank Text.blankCodes
  simp only [List.any_cons, List.any_nil, Bool.or_eq_false_iff, Bool.and_eq_false_iff,
    decide_eq_false_iff_not, and_true]
  omega

theorem isNameStart_code {c : Char} (h : isNameStart c = true) :
    0x41 ≤ c.toNat ∧ c.toNat ≤ 0x7A := by
  unfold isNameStart Char.isAlpha Char.isUpper Char.isLower at h
  simp only [Bool.or_eq_true, Bool.and_eq_true, decide_eq_true_eq, beq_iff_eq, ge_iff_le,
    UInt32.le_iff_toNat_le] at h
  rcases h with (h | h) | rfl
  · exact ⟨h.1, h.2.trans (by decide)⟩
  · exact ⟨Nat.le_trans (by decide) h.1, h.2⟩
  · decide

theorem isDigit_code {c : Char} (h : c.isDigit = true) : 0x30 ≤ c.toNat ∧ c.toNat ≤ 0x39 := by
  unfold Char.isDigit at h
  simp only [Bool.and_eq_true, decide_eq_true_eq, ge_iff_le, UInt32.le_iff_toNat_le] at h
  exact h

theorem isNumeral_code {c : Char} (h : isNumeral c = true) : 0x2E ≤ c.toNat ∧ c.toNat ≤ 0x39 := by
  unfold isNumeral at h
  rcases Bool.or_eq_true_iff.mp h with h | h
  · have := isDigit_code h
    omega
  · obtain rfl := eq_of_beq h
    decide

theorem scan_mark {c : Char} {t : Token} (h : mark? c = some t) (r : List Char) :
    scan total (c :: r) = (scan total r).map fun ts => t :: ts := by
  rw [scan, h]
  dsimp only
  cases scan total r <;> rfl

theorem scan_blank (r : List Char) : scan total (' ' :: r) = scan total r := by
  rw [scan]
  rfl

theorem Delimited.takeWhile {p : Char → Bool} (h : Delimited rest)
    (hp : ∀ c, isDelimiter c = true → p c = false) : rest.takeWhile p = [] := by
  cases rest with
  | nil => rfl
  | cons c r => rw [List.takeWhile_cons_of_neg (by simp [hp c (h c rfl)])]

theorem Delimited.dropWhile {p : Char → Bool} (h : Delimited rest)
    (hp : ∀ c, isDelimiter c = true → p c = false) : rest.dropWhile p = rest := by
  cases rest with
  | nil => rfl
  | cons c r => rw [List.dropWhile_cons_of_neg (by simp [hp c (h c rfl)])]

theorem scan_name {c : Char} {r : List Char} (hc : isNameStart c = true)
    (hr : ∀ d ∈ r, isNameChar d = true) (hrest : Delimited rest) :
    scan total (c :: r ++ rest) =
      (scan total rest).map fun ts => .name (String.ofList (c :: r)) :: ts := by
  have hcode := isNameStart_code hc
  have hmark : mark? c = none := by
    rw [← Option.not_isSome_iff_eq_none]
    intro h
    have hend := isDelimiter_ends (show isDelimiter c = true by rw [isDelimiter, h, Bool.true_or])
    have hname : isNameChar c = true := by
      unfold isNameStart at hc
      unfold isNameChar Char.isAlphanum
      rcases Bool.or_eq_true_iff.mp hc with h | h <;> simp [h]
    rw [hend.2.1] at hname
    cases hname
  have hblank : Text.isBlank c = false := isBlank_of_code (by omega) (by omega)
  have hnumeral : isNumeral c = false := by
    rw [Bool.eq_false_iff]
    intro h
    have := isNumeral_code h
    omega
  have htake : (r ++ rest).takeWhile isNameChar = r := by
    rw [List.takeWhile_append_of_pos hr, hrest.takeWhile fun c h => (isDelimiter_ends h).2.1,
      List.append_nil]
  have hdrop : (r ++ rest).dropWhile isNameChar = rest := by
    rw [List.dropWhile_append_of_pos hr, hrest.dropWhile fun c h => (isDelimiter_ends h).2.1]
  rw [List.cons_append, scan, hmark]
  dsimp only
  rw [hblank, hnumeral, hc, htake, hdrop]
  simp only [Bool.false_eq_true, if_false, if_true]
  cases scan total rest <;> rfl

theorem exponent_tail (n : Numeral) (hrest : Delimited rest) :
    exponent (n.tail ++ rest) = (n.tail, rest) := by
  unfold Numeral.tail Numeral.exponentText
  cases n.exponent with
  | none =>
    cases rest with
    | nil => rfl
    | cons c r =>
      have hc := isDelimiter_ends (hrest c rfl)
      show exponent (c :: r) = _
      rw [exponent, if_neg (by simp [hc.2.2.2])]
  | some e =>
    obtain ⟨negative, ds, htext, hne, hds, -⟩ := Decimal.toString_int e
    have hsign : exponentSign ((toString e).toList ++ rest) =
        (if negative then ['-'] else [], ds ++ rest) := by
      rw [htext]
      cases negative with
      | true => rfl
      | false =>
        cases ds with
        | nil => exact absurd rfl hne
        | cons c r =>
          have hc := hds c List.mem_cons_self
          show exponentSign (c :: (r ++ rest)) = _
          unfold exponentSign
          split
          · rename_i hcons
            obtain rfl := (List.cons.inj hcons).1
            cases hc
          · rename_i hcons
            obtain rfl := (List.cons.inj hcons).1
            cases hc
          · rfl
    have htake : (ds ++ rest).takeWhile Char.isDigit = ds := by
      rw [List.takeWhile_append_of_pos hds, hrest.takeWhile fun c h => (isDelimiter_ends h).2.2.1,
        List.append_nil]
    have hdrop : (ds ++ rest).dropWhile Char.isDigit = rest := by
      rw [List.dropWhile_append_of_pos hds, hrest.dropWhile fun c h => (isDelimiter_ends h).2.2.1]
    have hempty : ds.isEmpty = false := List.isEmpty_eq_false_iff.mpr hne
    show exponent ('e' :: ((toString e).toList ++ rest)) = _
    rw [exponent, if_pos (Or.inl rfl), hsign]
    dsimp only
    rw [htake, hdrop, hempty, if_neg Bool.false_ne_true, htext]
    cases negative <;> rfl

theorem body_cons (n : Numeral) :
    ∃ c r, n.body = c :: r ∧ c.isDigit = true ∧ ∀ d ∈ r, isNumeral d = true := by
  cases hw : n.whole with
  | nil => exact absurd hw n.nonempty
  | cons c w =>
    have hc : c.isDigit = true := n.isDigit_whole c (by rw [hw]; exact List.mem_cons_self)
    have hbody : ∃ r, n.body = c :: r := ⟨_, by rw [Numeral.body, hw]; rfl⟩
    obtain ⟨r, hr⟩ := hbody
    refine ⟨c, r, hr, hc, ?_⟩
    intro d hd
    have hmem : d ∈ n.body := by
      rw [hr]
      exact List.mem_cons_of_mem c hd
    rcases Numeral.mem_body hmem with h | rfl
    · simp [isNumeral, h]
    · rfl

theorem tail_not_numeral (n : Numeral) (hrest : Delimited rest) :
    ∀ c ∈ (n.tail ++ rest).head?, isNumeral c = false := by
  unfold Numeral.tail Numeral.exponentText
  cases n.exponent with
  | none => exact fun c hc => (isDelimiter_ends (hrest c hc)).1
  | some e =>
    rintro c ⟨⟩
    rfl

theorem scan_numeral (n : Numeral) (hrest : Delimited rest) :
    scan total (n.chars ++ rest) =
      (scan total rest).map fun ts => .number n.decimal.toScalar :: ts := by
  obtain ⟨c, r, hbody, hc, hr⟩ := body_cons n
  have hcode := isDigit_code hc
  have hmark : mark? c = none := by
    rw [← Option.not_isSome_iff_eq_none]
    intro h
    have hend := isDelimiter_ends (show isDelimiter c = true by rw [isDelimiter, h, Bool.true_or])
    rw [hend.2.2.1] at hc
    cases hc
  have hblank : Text.isBlank c = false := isBlank_of_code (by omega) (by omega)
  have hnumeral : isNumeral c = true := by simp [isNumeral, hc]
  have hstop := tail_not_numeral n hrest
  have htake : (r ++ (n.tail ++ rest)).takeWhile isNumeral = r := by
    rw [List.takeWhile_append_of_pos hr]
    cases ht : n.tail ++ rest with
    | nil => exact List.append_nil r
    | cons d u =>
      rw [ht] at hstop
      rw [List.takeWhile_cons_of_neg (by simp [hstop d rfl]), List.append_nil]
  have hdrop : (r ++ (n.tail ++ rest)).dropWhile isNumeral = n.tail ++ rest := by
    rw [List.dropWhile_append_of_pos hr]
    cases ht : n.tail ++ rest with
    | nil => rfl
    | cons d u =>
      rw [ht] at hstop
      rw [List.dropWhile_cons_of_neg (by simp [hstop d rfl])]
  have hread : Decimal.ofChars? (c :: r ++ n.tail) = some n.decimal := by
    rw [← hbody]
    exact n.ofChars?_chars
  rw [Numeral.chars, hbody, List.append_assoc, List.cons_append, scan, hmark]
  dsimp only
  rw [hblank, hnumeral, htake, hdrop, exponent_tail n hrest]
  simp only [Bool.false_eq_true, if_false, if_true, hread]
  cases scan total rest <;> rfl

end PoseRig.Token
