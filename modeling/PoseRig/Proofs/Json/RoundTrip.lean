import PoseRig.Json.Printer
import PoseRig.Json.Reader
import PoseRig.Proofs.Number.Numeral

/-!
# Reading back what is printed

Each part of a printed text is read to its end, whatever closes it. So a value that is printed is
read back with the fields of its objects in order, unless it nests too deeply.
-/

set_option autoImplicit false

namespace PoseRig.Json

variable {done cs rest : List Char} {j : Json} {n : Nat}

mutual

/-- The value with the fields of each object in order, of two with one name the later. -/
def ordered : Json → Json
  | .arr items => .arr (orderedItems items)
  | .obj fields => .obj (orderedFields [] fields)
  | j => j

def orderedItems : List Json → List Json
  | [] => []
  | j :: r => ordered j :: orderedItems r

def orderedFields (done : List (String × Json)) : List (String × Json) → List (String × Json)
  | [] => done
  | (name, j) :: r => orderedFields (Reader.putField name (ordered j) done) r

end

/-- All numbers in the value are within the range of doubles. -/
inductive Writable : Json → Prop where
  | null : Writable .null
  | bool (b : Bool) : Writable (.bool b)
  | int {i : Int} (finite : Decimal.isFinite ⟨decide (i < 0), i.natAbs, 0⟩ = true) :
      Writable (.int i)
  | real {d : Decimal} (finite : d.isFinite = true) : Writable (.real d)
  | str (s : String) : Writable (.str s)
  | arr {items : List Json} (each : ∀ j ∈ items, Writable j) : Writable (.arr items)
  | obj {fields : List (String × Json)} (each : ∀ e ∈ fields, Writable e.2) :
      Writable (.obj fields)

namespace Reader

theorem skip_cons {c : Char} (h : isSpace c = false) (r : List Char) : skip (c :: r) = c :: r := by
  rw [skip, List.dropWhile_cons_of_neg (by simp [h])]

/-- Where a unicode escape comes next, it is one that is not half of a pair. -/
def Paired (cs : List Char) : Prop :=
  ∀ a b c d r, cs = '\\' :: 'u' :: a :: b :: c :: d :: r → (hexCode? a b c d).isSome

theorem not_half (k : Char) : isHighHalf k.toNat = false ∧ isLowHalf k.toNat = false := by
  have hvalid : k.toNat < 0xD800 ∨ 0xDFFF < k.toNat ∧ k.toNat < 0x110000 := k.valid
  simp only [isHighHalf, isLowHalf, Bool.and_eq_false_iff, decide_eq_false_iff_not]
  omega

theorem text_unicode {a b c d k : Char} (hcode : hexCode? a b c d = some k.toNat)
    (hcs : Paired cs) :
    text done ('\\' :: 'u' :: a :: b :: c :: d :: cs) = text (k :: done) cs := by
  obtain ⟨hhigh, hlow⟩ := not_half k
  by_cases hnext : ∃ a' b' c' d' r, cs = '\\' :: 'u' :: a' :: b' :: c' :: d' :: r
  · obtain ⟨a', b', c', d', r, rfl⟩ := hnext
    obtain ⟨lo, hlo⟩ := Option.isSome_iff_exists.mp (hcs a' b' c' d' r rfl)
    rw [text, hcode, hlo]
    simp [hhigh, hlow, Char.ofNat_toNat]
  · rw [text, hcode]
    · simp [hhigh, hlow, Char.ofNat_toNat]
    · rintro a' b' c' d' r rfl
      exact hnext ⟨a', b', c', d', r, rfl⟩

theorem hexDigit?_hexDigit (n : Nat) : hexDigit? (hexDigit n) = some (n % 16) := by
  have hall : ∀ k < 16, hexDigit? (Nat.digitChar k) = some k := by decide
  exact hall (n % 16) (Nat.mod_lt n (by decide))

theorem hexCode?_control {c : Char} (h : c.toNat < 0x20) :
    hexCode? '0' '0' (hexDigit (c.toNat / 16)) (hexDigit c.toNat) = some c.toNat := by
  have hzero : hexDigit? '0' = some 0 := by decide
  simp only [hexCode?, hzero, hexDigit?_hexDigit, Option.some.injEq]
  omega

theorem text_escape (c : Char) (hcs : Paired cs) :
    text done (escape c ++ cs) = text (c :: done) cs := by
  unfold escape
  split
  · rename_i hquote
    subst hquote
    simp [text, escaped?]
  · split
    · rename_i hslash
      subst hslash
      simp [text, escaped?]
    · split
      · rename_i hcontrol
        exact text_unicode (hexCode?_control hcontrol) hcs
      · rename_i hquote hslash hcontrol
        rw [List.singleton_append, text]
        · simp [hslash, hcontrol]
        · exact hquote
        · simp [hslash]
        · simp [hslash]
        · simp [hslash]

theorem paired_escaped (cs : List Char) (rest : List Char) :
    Paired (cs.flatMap escape ++ '"' :: rest) := by
  intro a b c d r h
  cases cs with
  | nil => simp at h
  | cons k ks =>
    rw [List.flatMap_cons, List.append_assoc] at h
    unfold escape at h
    split at h
    · simp at h
    · split at h
      · simp at h
      · split at h
        · rename_i hcontrol
          simp only [List.cons_append, List.cons.injEq, true_and] at h
          obtain ⟨rfl, rfl, rfl, rfl, -⟩ := h
          rw [hexCode?_control hcontrol]
          rfl
        · rename_i hslash _
          simp only [List.cons_append, List.cons.injEq] at h
          exact absurd h.1 hslash

theorem text_escaped (cs : List Char) (done rest : List Char) :
    text done (cs.flatMap escape ++ '"' :: rest) =
      some (String.ofList (done.reverse ++ cs), rest) := by
  induction cs generalizing done with
  | nil => simp [text]
  | cons c r ih =>
    rw [List.flatMap_cons, List.append_assoc, text_escape c (paired_escaped r rest), ih]
    simp

theorem text_quote (s : String) (rest : List Char) :
    ∃ r, (quote s).toList ++ rest = '"' :: r ∧ text [] r = some (s, rest) := by
  refine ⟨s.toList.flatMap escape ++ '"' :: rest, by simp [quote], ?_⟩
  rw [text_escaped, List.reverse_nil, List.nil_append, String.ofList_toList]

def Closed (rest : List Char) : Prop := ∀ c ∈ rest.head?, c = ',' ∨ c = ']' ∨ c = '\x7d'

theorem closed_cons {c : Char} (h : c = ',' ∨ c = ']' ∨ c = '\x7d') (r : List Char) :
    Closed (c :: r) := by
  rintro _ ⟨⟩
  exact h

theorem Closed.digits (h : Closed rest) :
    rest.takeWhile Char.isDigit = [] ∧ rest.dropWhile Char.isDigit = rest := by
  cases rest with
  | nil => exact ⟨rfl, rfl⟩
  | cons c r =>
    have hc : c.isDigit = false := by
      rcases h c rfl with rfl | rfl | rfl <;> rfl
    exact ⟨List.takeWhile_cons_of_neg (by simp [hc]), List.dropWhile_cons_of_neg (by simp [hc])⟩

theorem head?_toDigits (n : Nat) (hpos : 0 < n) : ∀ c ∈ (Nat.toDigits 10 n).head?, c ≠ '0' := by
  induction n using Nat.strongRecOn with
  | ind n ih =>
    rcases Nat.lt_or_ge n 10 with hlt | hge
    · have hdigit : ∀ d < 10, 0 < d → d.digitChar ≠ '0' := by decide
      rw [Nat.toDigits_of_lt_base hlt]
      rintro c ⟨⟩
      exact hdigit n hlt hpos
    · rw [Nat.toDigits_of_base_le (by decide) hge,
        List.head?_append_of_ne_nil _ Nat.toDigits_ne_nil]
      exact ih (n / 10) (by omega) (by omega)

theorem isWhole_toDigits (n : Nat) : isWhole (Nat.toDigits 10 n) = true := by
  rcases Nat.eq_zero_or_pos n with rfl | hpos
  · rfl
  · have hfirst := head?_toDigits n hpos
    have hne : Nat.toDigits 10 n ≠ [] := Nat.toDigits_ne_nil
    generalize Nat.toDigits 10 n = ds at hfirst hne
    match ds with
    | [] => exact absurd rfl hne
    | [_] => rfl
    | c :: _ :: _ => simpa [isWhole] using hfirst c rfl

theorem unsigned?_toDigits (negative : Bool) (n : Nat) (htake : rest.takeWhile Char.isDigit = [])
    (hdrop : rest.dropWhile Char.isDigit = rest) :
    unsigned? negative (Nat.toDigits 10 n ++ rest) =
      match fraction? rest with
      | none => none
      | some (fraction, rest) =>
        match exponent? rest with
        | none => none
        | some (exponent, rest) =>
          let d : Decimal :=
            .ofParts negative (Nat.toDigits 10 n) (fraction.getD []) (exponent.getD 0)
          if !d.isFinite then none
          else if fraction.isNone && exponent.isNone && !(negative && n == 0) then
            some (.int (Scalar.signed negative n), rest)
          else some (.real d, rest) := by
  have hall := Decimal.isDigit_toDigits n
  rw [unsigned?, List.takeWhile_append_of_pos hall, htake, List.append_nil,
    List.dropWhile_append_of_pos hall, hdrop, isWhole_toDigits, Decimal.natOfDigits_toDigits]
  rfl

theorem exists_toDigits (n : Nat) : ∃ c ds, Nat.toDigits 10 n = c :: ds ∧ c.isDigit = true := by
  cases hdigits : Nat.toDigits 10 n with
  | nil => exact absurd hdigits Nat.toDigits_ne_nil
  | cons c ds =>
    have hc : c ∈ Nat.toDigits 10 n := by simp [hdigits]
    exact ⟨c, ds, rfl, Decimal.isDigit_toDigits n c hc⟩

theorem number?_toDigits (n : Nat) (rest : List Char) :
    number? (Nat.toDigits 10 n ++ rest) = unsigned? false (Nat.toDigits 10 n ++ rest) := by
  obtain ⟨c, ds, hdigits, hc⟩ := exists_toDigits n
  rw [hdigits, List.cons_append, number?]
  intro r h
  obtain ⟨rfl, -⟩ := List.cons.inj h
  cases hc

theorem signChars_toDigits (n : Nat) (rest : List Char) :
    signChars (Nat.toDigits 10 n ++ rest) = (none, Nat.toDigits 10 n ++ rest) := by
  obtain ⟨c, ds, hdigits, hc⟩ := exists_toDigits n
  rw [hdigits, List.cons_append, signChars]
  all_goals
    intro r h
    obtain ⟨rfl, -⟩ := List.cons.inj h
    cases hc

theorem ofParts_toDigits (negative : Bool) (n : Nat) (exponent : Int) :
    Decimal.ofParts negative (Nat.toDigits 10 n) [] exponent = ⟨negative, n, exponent⟩ := by
  simp [Decimal.ofParts, Decimal.natOfDigits_toDigits]

theorem Closed.fraction? (h : Closed rest) : fraction? rest = some (none, rest) := by
  unfold Reader.fraction?
  split
  · rcases h '.' rfl with h | h | h <;> cases h
  · rfl

theorem Closed.exponent? (h : Closed rest) : exponent? rest = some (none, rest) := by
  unfold Reader.exponent?
  cases rest with
  | nil => rfl
  | cons c r => rcases h c rfl with rfl | rfl | rfl <;> rfl

theorem toList_ofNat (n : Nat) : (toString (Int.ofNat n)).toList = Nat.toDigits 10 n :=
  Nat.toList_repr

theorem toList_negSucc (n : Nat) :
    (toString (Int.negSucc n)).toList = '-' :: Nat.toDigits 10 (n + 1) := by
  show ("-" ++ Nat.repr (n + 1)).toList = _
  rw [String.toList_append, Nat.toList_repr]
  rfl

theorem number?_int (i : Int) (hfinite : Decimal.isFinite ⟨decide (i < 0), i.natAbs, 0⟩ = true)
    (hrest : Closed rest) : number? ((toString i).toList ++ rest) = some (.int i, rest) := by
  obtain ⟨htake, hdrop⟩ := hrest.digits
  cases i with
  | ofNat n =>
    have hd : Decimal.isFinite ⟨false, n, 0⟩ = true := hfinite
    rw [toList_ofNat, number?_toDigits, unsigned?_toDigits false n htake hdrop, hrest.fraction?]
    simp only [hrest.exponent?]
    rw [Option.getD_none, Option.getD_none, ofParts_toDigits, hd]
    rfl
  | negSucc n =>
    have hd : Decimal.isFinite ⟨true, n + 1, 0⟩ = true := hfinite
    rw [toList_negSucc, List.cons_append, number?, unsigned?_toDigits true (n + 1) htake hdrop,
      hrest.fraction?]
    simp only [hrest.exponent?]
    rw [Option.getD_none, Option.getD_none, ofParts_toDigits, hd]
    rfl

theorem exponent?_signed {sign : Option Char} (n : Nat) (hrest : Closed rest)
    (hsign : signChars cs = (sign, Nat.toDigits 10 n ++ rest)) :
    exponent? ('e' :: cs) = some (some (Scalar.signed (sign == some '-') n), rest) := by
  obtain ⟨htake, hdrop⟩ := hrest.digits
  have hall := Decimal.isDigit_toDigits n
  have hsome : (Nat.toDigits 10 n).isEmpty = false := by simp [Nat.toDigits_ne_nil]
  simp only [exponent?, hsign, List.takeWhile_append_of_pos hall, List.dropWhile_append_of_pos hall,
    htake, hdrop, List.append_nil, hsome, Decimal.natOfDigits_toDigits]
  rfl

theorem exponent?_int (i : Int) (hrest : Closed rest) :
    exponent? ('e' :: ((toString i).toList ++ rest)) = some (some i, rest) := by
  cases i with
  | ofNat n =>
    rw [toList_ofNat, exponent?_signed n hrest (signChars_toDigits n rest)]
    rfl
  | negSucc n =>
    rw [toList_negSucc, exponent?_signed (n + 1) hrest rfl]
    rfl

theorem number?_real (d : Decimal) (hfinite : d.isFinite = true) (hrest : Closed rest) :
    number? ((decimalText d).toList ++ rest) = some (.real d, rest) := by
  obtain ⟨negative, n, exponent⟩ := d
  have hchars : (decimalText ⟨negative, n, exponent⟩).toList ++ rest =
      (if negative then ['-'] else []) ++
        (Nat.toDigits 10 n ++ 'e' :: ((toString exponent).toList ++ rest)) := by
    cases negative <;> simp [decimalText]
  have hread : unsigned? negative
      (Nat.toDigits 10 n ++ 'e' :: ((toString exponent).toList ++ rest)) =
        some (.real ⟨negative, n, exponent⟩, rest) := by
    have hwhole : fraction? ('e' :: ((toString exponent).toList ++ rest)) =
        some (none, 'e' :: ((toString exponent).toList ++ rest)) := rfl
    rw [unsigned?_toDigits negative n rfl rfl, hwhole]
    simp only [exponent?_int exponent hrest]
    rw [Option.getD_none, Option.getD_some, ofParts_toDigits, hfinite]
    rfl
  rw [hchars]
  cases negative with
  | true => exact hread
  | false => exact (number?_toDigits n _).trans hread

theorem isSpace_of_isDigit {c : Char} (h : c.isDigit = true) : isSpace c = false := by
  by_contra hspace
  simp only [isSpace, Bool.or_eq_true, beq_iff_eq, Bool.not_eq_false] at hspace
  rcases hspace with ((rfl | rfl) | rfl) | rfl <;> cases h

theorem value_number {c : Char} (h : c = '-' ∨ c.isDigit = true) (n : Nat) (r : List Char) :
    value (n + 1) (c :: r) = number? (c :: r) := by
  rcases h with rfl | h
  · rw [value, skip_cons (by decide)]
    rfl
  · rw [value, skip_cons (isSpace_of_isDigit h)]
    split
    all_goals first
      | rfl
      | (rename_i heq
         obtain ⟨rfl, -⟩ := List.cons.inj heq
         cases h)

theorem value_arr {c : Char} (hspace : isSpace c = false) (hclosing : c ≠ ']') (n : Nat)
    (r : List Char) : value (n + 1) ('[' :: c :: r) = items n [] (c :: r) := by
  rw [value, skip_cons (by decide)]
  simp only [skip_cons hspace]
  split
  · rename_i heq
    exact absurd (List.cons.inj heq).1 hclosing
  · rfl

end Reader

theorem exists_number (i : Int) :
    ∃ c r, (toString i).toList = c :: r ∧ (c = '-' ∨ c.isDigit = true) := by
  cases i with
  | ofNat n =>
    obtain ⟨c, r, hdigits, hc⟩ := Reader.exists_toDigits n
    exact ⟨c, r, (Reader.toList_ofNat n).trans hdigits, Or.inr hc⟩
  | negSucc n => exact ⟨'-', _, Reader.toList_negSucc n, Or.inl rfl⟩

theorem exists_decimal (d : Decimal) :
    ∃ c r, (decimalText d).toList = c :: r ∧ (c = '-' ∨ c.isDigit = true) := by
  obtain ⟨negative, n, exponent⟩ := d
  obtain ⟨c, r, hdigits, hc⟩ := Reader.exists_toDigits n
  cases negative with
  | true => exact ⟨'-', _, by simp [decimalText]; rfl, Or.inl rfl⟩
  | false =>
    refine ⟨c, r ++ 'e' :: (toString exponent).toList, ?_, Or.inr hc⟩
    simp [decimalText, hdigits]

theorem toList_between (first last : Char) (parts : List String) :
    (between first last parts).toList =
      first :: ([','].intercalate (parts.map String.toList) ++ [last]) := by
  simp [between, String.toList_intercalate]

theorem exists_print (j : Json) :
    ∃ c r, (print j).toList = c :: r ∧ Reader.isSpace c = false ∧ c ≠ ']' := by
  have hnumber : ∀ c : Char, c = '-' ∨ c.isDigit = true → Reader.isSpace c = false ∧ c ≠ ']' := by
    rintro c (rfl | h)
    · decide
    · refine ⟨Reader.isSpace_of_isDigit h, ?_⟩
      rintro rfl
      cases h
  cases j with
  | null => exact ⟨'n', _, rfl, by decide⟩
  | bool b => cases b with
    | false => exact ⟨'f', _, rfl, by decide⟩
    | true => exact ⟨'t', _, rfl, by decide⟩
  | int i =>
    obtain ⟨c, r, hchars, hc⟩ := exists_number i
    exact ⟨c, r, hchars, hnumber c hc⟩
  | real d =>
    obtain ⟨c, r, hchars, hc⟩ := exists_decimal d
    exact ⟨c, r, hchars, hnumber c hc⟩
  | str s => exact ⟨'"', _, by simp [print, quote]; rfl, by decide⟩
  | arr items => exact ⟨'[', _, toList_between '[' ']' _, by decide⟩
  | obj fields => exact ⟨'\x7b', _, toList_between '\x7b' '\x7d' _, by decide⟩

theorem printItems_eq (items : List Json) : printItems items = items.map print := by
  induction items with
  | nil => rfl
  | cons j r ih => rw [printItems, ih, List.map_cons]

theorem printFields_eq (fields : List (String × Json)) :
    printFields fields = fields.map fun e => quote e.1 ++ ":" ++ print e.2 := by
  induction fields with
  | nil => rfl
  | cons e r ih => rw [printFields, ih, List.map_cons]

/-- The printed value is read, whatever closes it. Twice the length of the text bounds the calls. -/
def Reads (j : Json) : Prop :=
  ∀ n rest, 2 * (print j).toList.length ≤ n → Reader.Closed rest →
    Reader.value n ((print j).toList ++ rest) = some (j.ordered, rest)

def itemChars (items : List Json) : List Char :=
  [','].intercalate (items.map fun j => (print j).toList)

theorem itemChars_cons_cons (j k : Json) (r : List Json) :
    itemChars (j :: k :: r) = (print j).toList ++ ',' :: itemChars (k :: r) := by
  simp [itemChars]

theorem exists_itemChars (j : Json) (r : List Json) :
    ∃ c cs, itemChars (j :: r) = c :: cs ∧ Reader.isSpace c = false ∧ c ≠ ']' := by
  obtain ⟨c, cs, hchars, hc⟩ := exists_print j
  cases r with
  | nil => exact ⟨c, cs, by simp [itemChars, hchars], hc⟩
  | cons k r => exact ⟨c, _, by rw [itemChars_cons_cons, hchars]; rfl, hc⟩

theorem items_itemChars (j : Json) (r : List Json) (hreads : ∀ k ∈ j :: r, Reads k)
    (done : List Json) (hn : 2 * (itemChars (j :: r)).length + 1 ≤ n) :
    Reader.items n done (itemChars (j :: r) ++ ']' :: rest) =
      some (.arr (done.reverse ++ orderedItems (j :: r)), rest) := by
  induction r generalizing j done n with
  | nil =>
    obtain ⟨n, rfl⟩ := Nat.exists_eq_add_of_le' (Nat.le_of_add_left_le hn)
    have hone : itemChars [j] = (print j).toList := by simp [itemChars]
    rw [hone] at hn ⊢
    rw [Reader.items,
      hreads j List.mem_cons_self n _ (by omega) (Reader.closed_cons (by decide) _)]
    simp only [Reader.skip_cons (show Reader.isSpace ']' = false by decide)]
    simp [orderedItems]
  | cons k r ih =>
    obtain ⟨n, rfl⟩ := Nat.exists_eq_add_of_le' (Nat.le_of_add_left_le hn)
    rw [itemChars_cons_cons] at hn ⊢
    rw [List.length_append, List.length_cons] at hn
    rw [List.append_assoc, List.cons_append, Reader.items,
      hreads j List.mem_cons_self n _ (by omega) (Reader.closed_cons (by decide) _)]
    simp only [Reader.skip_cons (show Reader.isSpace ',' = false by decide)]
    rw [ih k (fun m hm => hreads m (List.mem_cons_of_mem j hm)) (j.ordered :: done) (by omega)]
    simp [orderedItems]

def fieldChars (fields : List (String × Json)) : List Char :=
  [','].intercalate (fields.map fun e => (quote e.1).toList ++ ':' :: (print e.2).toList)

theorem fieldChars_cons_cons (e f : String × Json) (r : List (String × Json)) :
    fieldChars (e :: f :: r) =
      (quote e.1).toList ++ ':' :: ((print e.2).toList ++ ',' :: fieldChars (f :: r)) := by
  simp [fieldChars]

theorem exists_fieldChars (e : String × Json) (r : List (String × Json)) :
    ∃ cs, fieldChars (e :: r) = '"' :: cs := by
  cases r with
  | nil => exact ⟨_, by simp [fieldChars, quote]; rfl⟩
  | cons f r => exact ⟨_, by simp [fieldChars_cons_cons, quote]; rfl⟩

def afterField (n : Nat) (done : List (String × Json)) : List Char → Option (Json × List Char)
  | ',' :: r => Reader.fields n done r
  | '\x7d' :: r => some (.obj done, r)
  | _ => none

theorem fields_field {name : String} {j : Json} (hreads : Reads j)
    (hn : 2 * (print j).toList.length ≤ n) (hcs : Reader.Closed cs) (done : List (String × Json)) :
    Reader.fields (n + 1) done ((quote name).toList ++ ':' :: ((print j).toList ++ cs)) =
      afterField n (Reader.putField name j.ordered done) (Reader.skip cs) := by
  obtain ⟨r, hchars, htext⟩ := Reader.text_quote name (':' :: ((print j).toList ++ cs))
  rw [hchars, Reader.fields]
  simp only [Reader.skip_cons (show Reader.isSpace '"' = false by decide), htext,
    Reader.skip_cons (show Reader.isSpace ':' = false by decide), hreads n cs hn hcs]
  rfl

theorem fields_fieldChars (e : String × Json) (r : List (String × Json))
    (hreads : ∀ f ∈ e :: r, Reads f.2) (done : List (String × Json))
    (hn : 2 * (fieldChars (e :: r)).length + 1 ≤ n) :
    Reader.fields n done (fieldChars (e :: r) ++ '\x7d' :: rest) =
      some (.obj (orderedFields done (e :: r)), rest) := by
  induction r generalizing e done n with
  | nil =>
    obtain ⟨n, rfl⟩ := Nat.exists_eq_add_of_le' (Nat.le_of_add_left_le hn)
    have hone : fieldChars [e] = (quote e.1).toList ++ ':' :: (print e.2).toList := by
      simp [fieldChars]
    rw [hone] at hn ⊢
    rw [List.length_append, List.length_cons] at hn
    rw [List.append_assoc, List.cons_append,
      fields_field (hreads e List.mem_cons_self) (by omega) (Reader.closed_cons (by decide) _),
      Reader.skip_cons (by decide)]
    rfl
  | cons f r ih =>
    obtain ⟨n, rfl⟩ := Nat.exists_eq_add_of_le' (Nat.le_of_add_left_le hn)
    rw [fieldChars_cons_cons] at hn ⊢
    simp only [List.length_append, List.length_cons] at hn
    rw [List.append_assoc, List.cons_append, List.append_assoc, List.cons_append,
      fields_field (hreads e List.mem_cons_self) (by omega) (Reader.closed_cons (by decide) _),
      Reader.skip_cons (by decide)]
    exact ih f (fun g hg => hreads g (List.mem_cons_of_mem e hg)) _ (by omega)

theorem reads_of_number {c : Char} {r : List Char} (hchars : (print j).toList = c :: r)
    (hc : c = '-' ∨ c.isDigit = true) (hread : ∀ rest, Reader.Closed rest →
      Reader.number? ((print j).toList ++ rest) = some (j.ordered, rest)) : Reads j := by
  intro n rest hn hrest
  have hnumber := hread rest hrest
  rw [hchars] at hn hnumber ⊢
  obtain ⟨n, rfl⟩ := Nat.exists_eq_add_of_le' (Nat.le_trans (by simp; omega) hn : 1 ≤ n)
  rw [List.cons_append, Reader.value_number hc]
  exact hnumber

theorem reads_str (s : String) : Reads (.str s) := by
  intro n rest hn _
  obtain ⟨r, hchars, htext⟩ := Reader.text_quote s rest
  have hpos : 1 ≤ n := Nat.le_trans (by simp [print, quote]; omega) hn
  obtain ⟨n, rfl⟩ := Nat.exists_eq_add_of_le' hpos
  rw [show (print (.str s)).toList = (quote s).toList from rfl, hchars, Reader.value,
    Reader.skip_cons (by decide)]
  simp only [htext]
  rfl

theorem reads_arr {items : List Json} (hreads : ∀ j ∈ items, Reads j) : Reads (.arr items) := by
  intro n rest hn _
  have hchars : (print (.arr items)).toList = '[' :: (itemChars items ++ [']']) := by
    rw [print, toList_between, printItems_eq, List.map_map]
    rfl
  rw [hchars] at hn ⊢
  simp only [List.length_cons, List.length_append] at hn
  obtain ⟨n, rfl⟩ := Nat.exists_eq_add_of_le' (Nat.le_trans (by omega) hn : 1 ≤ n)
  rw [List.cons_append, List.append_assoc, List.singleton_append]
  cases items with
  | nil => rfl
  | cons j r =>
    have hread : Reader.items n [] (itemChars (j :: r) ++ ']' :: rest) = _ :=
      items_itemChars j r hreads [] (by omega)
    obtain ⟨c, cs, hfirst, hspace, hclosing⟩ := exists_itemChars j r
    rw [hfirst, List.cons_append] at hread ⊢
    rw [Reader.value_arr hspace hclosing, hread]
    rfl

theorem reads_obj {fields : List (String × Json)} (hreads : ∀ e ∈ fields, Reads e.2) :
    Reads (.obj fields) := by
  intro n rest hn _
  have hchars : (print (.obj fields)).toList = '\x7b' :: (fieldChars fields ++ ['\x7d']) := by
    rw [print, toList_between, printFields_eq, List.map_map]
    simp [fieldChars, Function.comp_def]
  rw [hchars] at hn ⊢
  simp only [List.length_cons, List.length_append] at hn
  obtain ⟨n, rfl⟩ := Nat.exists_eq_add_of_le' (Nat.le_trans (by omega) hn : 1 ≤ n)
  rw [List.cons_append, List.append_assoc, List.singleton_append]
  cases fields with
  | nil => rfl
  | cons e r =>
    have hread : Reader.fields n [] (fieldChars (e :: r) ++ '\x7d' :: rest) = _ :=
      fields_fieldChars e r hreads [] (by omega)
    obtain ⟨cs, hfirst⟩ := exists_fieldChars e r
    rw [hfirst, List.cons_append] at hread ⊢
    exact hread

/-- Every value with such numbers is read back from its text. The induction is on what the value is
made of, and each list of parts is read part by part. -/
theorem Writable.reads (h : j.Writable) : Reads j := by
  induction h with
  | null =>
    intro n rest hn _
    obtain ⟨n, rfl⟩ := Nat.exists_eq_add_of_le' (Nat.le_trans (by decide) hn : 1 ≤ n)
    rfl
  | bool b =>
    intro n rest hn _
    obtain ⟨n, rfl⟩ := Nat.exists_eq_add_of_le'
      (Nat.le_trans (by cases b <;> decide) hn : 1 ≤ n)
    cases b <;> rfl
  | @int i hfinite =>
    obtain ⟨c, r, hchars, hc⟩ := exists_number i
    exact reads_of_number hchars hc fun rest hrest => Reader.number?_int i hfinite hrest
  | @real d hfinite =>
    obtain ⟨c, r, hchars, hc⟩ := exists_decimal d
    exact reads_of_number hchars hc fun rest hrest => Reader.number?_real d hfinite hrest
  | str s => exact reads_str s
  | arr _ ih => exact reads_arr ih
  | obj _ ih => exact reads_obj ih

/-- A printed value is read back with its fields in order, exactly when that does not nest
too deeply. -/
theorem parse?_print (h : j.Writable) :
    parse? (print j) = if j.ordered.depth ≤ depthLimit then some j.ordered else none := by
  have hread := h.reads (2 * (print j).toList.length + 2) [] (by omega) nofun
  rw [List.append_nil] at hread
  simp only [parse?, hread, Reader.skip, List.dropWhile_nil, List.isEmpty_nil, Bool.true_and,
    decide_eq_true_eq]

end PoseRig.Json
