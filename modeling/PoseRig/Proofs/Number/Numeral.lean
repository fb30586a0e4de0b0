import PoseRig.Number.Text
import PoseRig.Proofs.Number.Decimal

/-!
# Written numerals

A written numeral is digits, possibly a point with further digits, and possibly an exponent.
Reading one gives back its parts, and every layout of the digits of a scalar is one with the
value of those digits.
-/

set_option autoImplicit false

namespace PoseRig

/-- An unsigned numeral as it is written. -/
structure Numeral where
  whole : List Char
  fraction : Option (List Char)
  exponent : Option Int
  nonempty : whole ≠ []
  digits : ∀ c ∈ whole ++ fraction.getD [], c.isDigit = true

namespace Numeral

def exponentText (e : Int) : List Char := 'e' :: (toString e).toList

def body (n : Numeral) : List Char :=
  n.whole ++ match n.fraction with
    | none => []
    | some ds => '.' :: ds

def tail (n : Numeral) : List Char :=
  match n.exponent with
  | none => []
  | some e => exponentText e

def chars (n : Numeral) : List Char := n.body ++ n.tail

def decimal (n : Numeral) : Decimal :=
  .ofParts false n.whole (n.fraction.getD []) (n.exponent.getD 0)

end Numeral

namespace Decimal

theorem natOfDigits_eq (cs : List Char) : natOfDigits cs = Nat.ofDigitChars 10 cs 0 := rfl

def value (d : Decimal) : ℚ := d.digits * 10 ^ d.exponent

theorem isDigit_toDigits (n : Nat) : ∀ c ∈ Nat.toDigits 10 n, c.isDigit = true := fun _ hc =>
  Nat.isDigit_of_mem_toDigits (by decide) (by decide) hc

theorem natOfDigits_toDigits (n : Nat) : natOfDigits (Nat.toDigits 10 n) = n := by
  rw [natOfDigits_eq, Nat.ofDigitChars_ten_toDigits]

theorem natOfDigits_zeros_append (n : Nat) (ds : List Char) :
    natOfDigits (Scalar.zeros n ++ ds) = natOfDigits ds := by
  rw [natOfDigits_eq, Scalar.zeros, Nat.ofDigitChars_append,
    Nat.ofDigitChars_replicate_zero, Nat.mul_zero]
  rfl

theorem natOfDigits_append_zeros (ds : List Char) (n : Nat) :
    natOfDigits (ds ++ Scalar.zeros n) = 10 ^ n * natOfDigits ds := by
  rw [natOfDigits_eq, Scalar.zeros, Nat.ofDigitChars_append, Nat.ofDigitChars_replicate_zero]
  rfl

theorem toString_int (e : Int) :
    ∃ negative ds, (toString e).toList = (if negative then '-' :: ds else ds) ∧ ds ≠ [] ∧
      (∀ c ∈ ds, c.isDigit = true) ∧ Scalar.signed negative (natOfDigits ds) = e := by
  cases e with
  | ofNat n =>
    refine ⟨false, Nat.toDigits 10 n, ?_, Nat.toDigits_ne_nil, isDigit_toDigits n, ?_⟩
    · show n.repr.toList = _
      rw [Nat.toList_repr]
      rfl
    · rw [natOfDigits_toDigits]
      rfl
  | negSucc n =>
    refine ⟨true, Nat.toDigits 10 (n + 1), ?_, Nat.toDigits_ne_nil, isDigit_toDigits (n + 1), ?_⟩
    · show ("-" ++ (n + 1).repr).toList = _
      rw [String.toList_append, Nat.toList_repr]
      rfl
    · rw [natOfDigits_toDigits]
      rfl

theorem splitExponent_digits {ds : List Char} (hne : ds ≠ []) (hds : ∀ c ∈ ds, c.isDigit = true) :
    splitExponent ds = some (false, ds) := by
  cases ds with
  | nil => exact absurd rfl hne
  | cons c r =>
    have hc := hds c List.mem_cons_self
    unfold splitExponent
    split
    · rename_i hcons
      obtain rfl := (List.cons.inj hcons).1
      cases hc
    · rename_i hcons
      obtain rfl := (List.cons.inj hcons).1
      cases hc
    · rfl

theorem splitExponent_toString (e : Int) :
    ∃ negative ds, splitExponent (toString e).toList = some (negative, ds) ∧
      (∀ c ∈ ds, c.isDigit = true) ∧ Scalar.signed negative (natOfDigits ds) = e := by
  obtain ⟨negative, ds, htext, hne, hds, hvalue⟩ := toString_int e
  refine ⟨negative, ds, ?_, hds, hvalue⟩
  rw [htext]
  cases negative with
  | false => exact splitExponent_digits hne hds
  | true =>
    cases ds with
    | nil => exact absurd rfl hne
    | cons c r => rfl

end Decimal

namespace Numeral

theorem isDigit_whole (n : Numeral) : ∀ c ∈ n.whole, c.isDigit = true := fun c hc =>
  n.digits c (List.mem_append_left _ hc)

theorem isDigit_fraction (n : Numeral) : ∀ c ∈ n.fraction.getD [], c.isDigit = true := fun c hc =>
  n.digits c (List.mem_append_right _ hc)

theorem mem_body {n : Numeral} {c : Char} (h : c ∈ n.body) : c.isDigit = true ∨ c = '.' := by
  unfold body at h
  have hf := n.isDigit_fraction
  cases hfr : n.fraction with
  | none =>
    rw [hfr, List.append_nil] at h
    exact Or.inl (n.isDigit_whole c h)
  | some ds =>
    rw [hfr] at h hf
    rcases List.mem_append.mp h with h | h
    · exact Or.inl (n.isDigit_whole c h)
    · rcases List.mem_cons.mp h with rfl | h
      · exact Or.inr rfl
      · exact Or.inl (hf c h)

theorem ofChars?_chars (n : Numeral) : Decimal.ofChars? n.chars = some n.decimal := by
  have hmark : ∀ c ∈ n.body, (!(c == 'e' || c == 'E')) = true := by
    intro c hc
    rcases mem_body hc with h | rfl
    · by_cases he : c = 'e'
      · subst he
        cases h
      · by_cases hE : c = 'E'
        · subst hE
          cases h
        · simp [he, hE]
    · rfl
  have hexponent : ∀ p : Char → Bool, p 'e' = false →
      n.tail.takeWhile p = [] ∧ n.tail.dropWhile p = n.tail := by
    intro p hp
    unfold tail exponentText
    cases n.exponent <;> simp [hp]
  have htake : n.chars.takeWhile (fun c => !(c == 'e' || c == 'E')) = n.body := by
    rw [chars, List.takeWhile_append_of_pos hmark, (hexponent _ rfl).1, List.append_nil]
  have hdrop : n.chars.dropWhile (fun c => !(c == 'e' || c == 'E')) = n.tail := by
    rw [chars, List.dropWhile_append_of_pos hmark, (hexponent _ rfl).2]
  have hwhole : n.body.takeWhile Char.isDigit = n.whole := by
    rw [body, List.takeWhile_append_of_pos n.isDigit_whole]
    cases n.fraction <;> simp
  have hpoint : n.body.dropWhile Char.isDigit =
      match n.fraction with
      | none => []
      | some ds => '.' :: ds := by
    rw [body, List.dropWhile_append_of_pos n.isDigit_whole]
    cases n.fraction <;> simp
  have hsome : n.whole.isEmpty = false := by
    rw [List.isEmpty_eq_false_iff]
    exact n.nonempty
  have hall : (n.fraction.getD []).all Char.isDigit = true :=
    List.all_eq_true.mpr n.isDigit_fraction
  unfold Decimal.ofChars?
  dsimp only
  rw [htake, hdrop, hwhole, hpoint]
  unfold decimal tail exponentText
  cases hfr : n.fraction with
  | none =>
    cases hexp : n.exponent with
    | none =>
      simp only [hsome]
      rfl
    | some e =>
      obtain ⟨negative, ds, hsplit, hds, hvalue⟩ := Decimal.splitExponent_toString e
      simp only [hsome, hsplit, List.all_eq_true.mpr hds, hvalue]
      rfl
  | some fs =>
    rw [hfr, Option.getD_some] at hall
    cases hexp : n.exponent with
    | none =>
      simp only [hall, hsome]
      rfl
    | some e =>
      obtain ⟨negative, ds, hsplit, hds, hvalue⟩ := Decimal.splitExponent_toString e
      simp only [hall, hsome, hsplit, List.all_eq_true.mpr hds, hvalue]
      rfl

end Numeral

namespace Scalar

variable {ds : List Char}

theorem isDigit_zeros {n : Nat} {c : Char} (h : c ∈ zeros n) : c.isDigit = true := by
  rw [(List.mem_replicate.mp h).2]
  rfl

theorem positional_numeral (hne : ds ≠ []) (hds : ∀ c ∈ ds, c.isDigit = true) (point : Int) :
    ∃ n : Numeral, n.chars = positional ds point ∧
      n.decimal.value = Decimal.natOfDigits ds * 10 ^ (point - ds.length) := by
  unfold positional
  by_cases hlow : point ≤ 0
  · rw [if_pos hlow]
    refine ⟨⟨['0'], some (zeros (-point).toNat ++ ds), none, by simp, ?_⟩, ?_, ?_⟩
    · intro c hc
      simp only [Option.getD_some, List.cons_append, List.nil_append, List.mem_cons,
        List.mem_append] at hc
      rcases hc with rfl | hc | hc
      · rfl
      · exact isDigit_zeros hc
      · exact hds c hc
    · simp [Numeral.chars, Numeral.body, Numeral.tail]
    · have hzeros : ['0'] ++ (zeros (-point).toNat ++ ds) = zeros ((-point).toNat + 1) ++ ds := by
        simp [zeros, List.replicate_succ]
      have hexp : 0 - ((zeros (-point).toNat ++ ds).length : Int) = point - ds.length := by
        simp only [zeros, List.length_append, List.length_replicate]
        omega
      show (Decimal.natOfDigits (['0'] ++ (zeros (-point).toNat ++ ds)) : ℚ) *
        10 ^ (0 - ((zeros (-point).toNat ++ ds).length : Int)) = _
      rw [hzeros, hexp, Decimal.natOfDigits_zeros_append]
  · rw [if_neg hlow]
    by_cases hhigh : ds.length ≤ point.toNat
    · rw [if_pos hhigh]
      refine ⟨⟨ds ++ zeros (point.toNat - ds.length), some ['0'], none, by simp [hne], ?_⟩, ?_, ?_⟩
      · intro c hc
        simp only [Option.getD_some, List.mem_append, List.mem_singleton] at hc
        rcases hc with (hc | hc) | rfl
        · exact hds c hc
        · exact isDigit_zeros hc
        · rfl
      · simp [Numeral.chars, Numeral.body, Numeral.tail]
      · have hzeros : ds ++ zeros (point.toNat - ds.length) ++ ['0'] =
            ds ++ zeros (point.toNat - ds.length + 1) := by
          simp [zeros, List.replicate_succ']
        have hexp : point - ds.length = ((point.toNat - ds.length + 1 : Nat) : Int) + (0 - 1) := by
          omega
        show (Decimal.natOfDigits (ds ++ zeros (point.toNat - ds.length) ++ ['0']) : ℚ) *
          10 ^ ((0 : Int) - 1) = _
        rw [hzeros, hexp, Decimal.natOfDigits_append_zeros, zpow_add₀ (by norm_num), zpow_natCast]
        push_cast
        ring
    · rw [if_neg hhigh]
      refine ⟨⟨ds.take point.toNat, some (ds.drop point.toNat), none, ?_, ?_⟩, ?_, ?_⟩
      · intro hnil
        rcases List.take_eq_nil_iff.mp hnil with h | h
        · omega
        · exact hne h
      · rw [Option.getD_some, List.take_append_drop]
        exact hds
      · simp [Numeral.chars, Numeral.body, Numeral.tail]
      · have hexp : 0 - ((ds.drop point.toNat).length : Int) = point - ds.length := by
          rw [List.length_drop]
          omega
        show (Decimal.natOfDigits (ds.take point.toNat ++ ds.drop point.toNat) : ℚ) *
          10 ^ (0 - ((ds.drop point.toNat).length : Int)) = _
        rw [List.take_append_drop, hexp]

theorem exponential_numeral (hne : ds ≠ []) (hds : ∀ c ∈ ds, c.isDigit = true) (e : Int) :
    ∃ n : Numeral, n.chars = exponential ds e ∧
      n.decimal.value = Decimal.natOfDigits ds * 10 ^ (e + 1 - ds.length) := by
  match ds, hne, hds with
  | [d], _, hds =>
    refine ⟨⟨[d], none, some e, by simp, by simpa using hds⟩, ?_, ?_⟩
    · simp [Numeral.chars, Numeral.body, Numeral.tail, Numeral.exponentText, exponential]
    · show (Decimal.natOfDigits [d] : ℚ) * 10 ^ (e - 0) = _
      rw [List.length_singleton, Nat.cast_one, add_sub_cancel_right, sub_zero]
  | d :: d' :: r, _, hds =>
    refine ⟨⟨[d], some (d' :: r), some e, by simp, by simpa using hds⟩, ?_, ?_⟩
    · simp [Numeral.chars, Numeral.body, Numeral.tail, Numeral.exponentText, exponential]
    · have hexp : e - ((d' :: r).length : Int) = e + 1 - (d :: d' :: r).length := by
        simp only [List.length_cons]
        omega
      show (Decimal.natOfDigits (d :: d' :: r) : ℚ) * 10 ^ (e - ((d' :: r).length : Int)) = _
      rw [hexp]

theorem digitsText_numeral (d : Nat) (k : Int) :
    ∃ n : Numeral, n.chars = digitsText d k ∧ n.decimal.value = d * 10 ^ k := by
  have hds := Decimal.isDigit_toDigits d
  unfold digitsText
  dsimp only
  by_cases hplain : -4 ≤ k + (Nat.toDigits 10 d).length - 1 ∧
      k + (Nat.toDigits 10 d).length - 1 < 16
  · rw [if_pos hplain]
    obtain ⟨n, hn, hvalue⟩ := positional_numeral Nat.toDigits_ne_nil hds
      (k + (Nat.toDigits 10 d).length - 1 + 1)
    exists n
    constructor
    · exact hn
    rw [hvalue, Decimal.natOfDigits_toDigits, sub_add_cancel, add_sub_cancel_right]
  · rw [if_neg hplain]
    obtain ⟨n, hn, hvalue⟩ := exponential_numeral Nat.toDigits_ne_nil hds
      (k + (Nat.toDigits 10 d).length - 1)
    exists n
    constructor
    · exact hn
    rw [hvalue, Decimal.natOfDigits_toDigits, sub_add_cancel, add_sub_cancel_right]

/-- The text of a finite magnitude is a numeral that reads back to it. -/
theorem magnitudeText_numeral {bits : Nat} (hfin : bits < Binary.single.infinity) :
    ∃ n : Numeral, n.chars = magnitudeText bits ∧ n.decimal.toScalar = ofMagnitude false bits := by
  unfold magnitudeText
  rcases Nat.eq_zero_or_pos bits with rfl | hb
  · rw [if_pos rfl]
    exact ⟨⟨['0'], some ['0'], none, by simp, List.all_eq_true.mp rfl⟩, rfl, by decide⟩
  · rw [if_neg hb.ne']
    dsimp only
    obtain ⟨n, hn, hvalue⟩ := digitsText_numeral (Binary.single.shortest bits).1
      (Binary.single.shortest bits).2
    exists n
    constructor
    · exact hn
    have hnearest := Binary.Format.nearest_shortest hb
    rw [← hvalue] at hnearest
    have hbits := Binary.Format.ofDecimal_eq hb hfin hnearest
    rw [Decimal.toScalar, hbits]
    rfl

end Scalar

end PoseRig
