import Mathlib.Data.List.Perm.Subperm
import Mathlib.Data.List.Nodup
import PoseRig.Naming.Numbered

/-!
# Fresh names

Numbered candidates are pairwise distinct, so among one more candidate than there are taken names
one is free and the name that is found is free too. A beginning without a point is never cut off by
the numbering. Names that are new one after the other are new together.
-/

set_option autoImplicit false

namespace PoseRig.Naming

theorem threeDigits_injective : Function.Injective threeDigits := by
  intro m n h
  have hchars := congrArg (fun s => Nat.ofDigitChars 10 (String.toList s) 0) h
  simpa [threeDigits, Nat.ofDigitChars_append] using hchars

theorem candidate_injective (name : String) : Function.Injective (candidate name) := by
  intro m n h
  apply threeDigits_injective
  simpa [candidate, ← String.toList_inj] using h

theorem exists_free_candidate (taken : List String) (name : String) :
    ∃ i ∈ List.range (taken.length + 1), candidate name (i + 1) ∉ taken := by
  by_contra hall
  push Not at hall
  have hsub : ((List.range (taken.length + 1)).map fun i => candidate name (i + 1)) ⊆ taken := by
    intro c hc
    obtain ⟨i, hi, rfl⟩ := List.mem_map.mp hc
    exact hall i hi
  have hnodup : ((List.range (taken.length + 1)).map fun i => candidate name (i + 1)).Nodup :=
    List.nodup_range.map fun i j h => Nat.succ.inj (candidate_injective name h)
  have hlen : taken.length + 1 ≤ taken.length := by
    simpa using (List.subperm_of_subset hnodup hsub).length_le
  omega

theorem firstFree?_eq_some {taken : String → Bool} {name found : String} {tries n : Nat} :
    firstFree? taken name tries n = some found ↔
      ∃ m, n ≤ m ∧ m < n + tries ∧ taken (candidate name m) = false ∧
        (∀ k, n ≤ k → k < m → taken (candidate name k) = true) ∧ found = candidate name m := by
  induction tries generalizing n with
  | zero =>
    simp only [firstFree?, reduceCtorEq, false_iff]
    rintro ⟨m, hle, hlt, -⟩
    omega
  | succ tries ih =>
    rw [firstFree?]
    cases hn : taken (candidate name n) with
    | false =>
      simp only [Bool.false_eq_true, if_false, Option.some.injEq]
      constructor
      · rintro rfl
        exact ⟨n, Nat.le_refl n, by omega, hn, fun k hle hlt => absurd hlt (by omega), rfl⟩
      · rintro ⟨m, hle, -, -, hbefore, rfl⟩
        rcases Nat.eq_or_lt_of_le hle with rfl | hlt
        · rfl
        · exact absurd (hbefore n (Nat.le_refl n) hlt) (by simp [hn])
    | true =>
      rw [if_pos rfl, ih]
      constructor
      · rintro ⟨m, hle, hlt, hfree, hbefore, rfl⟩
        refine ⟨m, by omega, by omega, hfree, fun k hk hkm => ?_, rfl⟩
        rcases Nat.eq_or_lt_of_le hk with rfl | hk
        · exact hn
        · exact hbefore k hk hkm
      · rintro ⟨m, hle, hlt, hfree, hbefore, rfl⟩
        have hne : m ≠ n := by
          rintro rfl
          simp [hn] at hfree
        exact ⟨m, by omega, by omega, hfree, fun k hk => hbefore k (by omega), rfl⟩

theorem firstFree?_eq_none {taken : String → Bool} {name : String} {tries n : Nat} :
    firstFree? taken name tries n = none ↔
      ∀ m, n ≤ m → m < n + tries → taken (candidate name m) = true := by
  induction tries generalizing n with
  | zero =>
    simp only [firstFree?, true_iff]
    intro m hle hlt
    omega
  | succ tries ih =>
    rw [firstFree?]
    cases hn : taken (candidate name n) with
    | false =>
      simp only [Bool.false_eq_true, if_false, reduceCtorEq, false_iff]
      intro h
      exact absurd (h n (Nat.le_refl n) (by omega)) (by simp [hn])
    | true =>
      rw [if_pos rfl, ih]
      refine ⟨fun h m hle hlt => ?_, fun h m hle hlt => h m (by omega) (by omega)⟩
      rcases Nat.eq_or_lt_of_le hle with rfl | hle
      · exact hn
      · exact h m hle (by omega)

/-- A taken name gets the least number that is free. -/
theorem fresh_of_mem {taken : List String} {name : String} (h : name ∈ taken) :
    ∃ n ≤ taken.length, fresh taken name = candidate name (n + 1) ∧ candidate name (n + 1) ∉ taken ∧
      ∀ m < n, candidate name (m + 1) ∈ taken := by
  obtain ⟨j, hj, hfree⟩ := exists_free_candidate taken name
  cases hfind : firstFree? taken.contains name (taken.length + 1) 1 with
  | none =>
    have htaken := firstFree?_eq_none.mp hfind (j + 1) (by omega)
      (by have := List.mem_range.mp hj; omega)
    simp [hfree] at htaken
  | some found =>
    obtain ⟨m, hle, hlt, hm, hbefore, rfl⟩ := firstFree?_eq_some.mp hfind
    obtain ⟨n, rfl⟩ := Nat.exists_eq_add_of_le' hle
    refine ⟨n, by omega, by rw [fresh, if_pos h, hfind, Option.getD_some], by simpa using hm, ?_⟩
    intro k hk
    simpa using hbefore (k + 1) (by omega) (by omega)

theorem fresh_cases (taken : List String) (name : String) :
    fresh taken name = name ∨ ∃ n, fresh taken name = candidate name (n + 1) := by
  by_cases h : name ∈ taken
  · obtain ⟨n, -, hn, -⟩ := fresh_of_mem h
    exact Or.inr ⟨n, hn⟩
  · exact Or.inl (fresh_of_not_mem h)

theorem fresh_not_mem (taken : List String) (name : String) : fresh taken name ∉ taken := by
  by_cases h : name ∈ taken
  · obtain ⟨n, -, hn, hfree, -⟩ := fresh_of_mem h
    rwa [hn]
  · rwa [fresh_of_not_mem h]

/-- A text ends in a point and exactly three digits, with `r` before them. -/
def EndsNumbered (cs r : List Char) : Prop :=
  ∃ a b c : Char, a.isDigit ∧ b.isDigit ∧ c.isDigit ∧ cs = r ++ ['.', a, b, c]

theorem stemChars_of_endsNumbered {cs r : List Char} (h : EndsNumbered cs r) :
    stemChars cs = r := by
  obtain ⟨a, b, c, ha, hb, hc, rfl⟩ := h
  simp [stemChars, ha, hb, hc]

theorem stemChars_of_not_endsNumbered {cs : List Char} (h : ∀ r, ¬EndsNumbered cs r) :
    stemChars cs = cs := by
  unfold stemChars
  split
  · rename_i c b a r hrev
    have hcs : cs = r.reverse ++ ['.', a, b, c] := by
      simpa using congrArg List.reverse hrev
    split
    · rename_i hdigits
      simp only [Bool.and_eq_true] at hdigits
      exact absurd ⟨a, b, c, hdigits.1.1, hdigits.1.2, hdigits.2, hcs⟩ (h r.reverse)
    · rfl
  · rfl

theorem prefix_stemChars {start cs : List Char} (hdot : '.' ∉ start) (h : start <+: cs) :
    start <+: stemChars cs := by
  by_cases hends : ∃ r, EndsNumbered cs r
  · obtain ⟨r, hr⟩ := hends
    rw [stemChars_of_endsNumbered hr]
    obtain ⟨a, b, c, -, -, -, rfl⟩ := hr
    have hpoint : r ++ ['.'] <+: r ++ ['.', a, b, c] := ⟨[a, b, c], by simp⟩
    rcases Nat.lt_or_ge r.length start.length with hlong | hshort
    · -- the beginning would reach past the point
      have hmem : r ++ ['.'] <+: start :=
        List.prefix_of_prefix_length_le hpoint h (by simpa [Nat.succ_le_iff] using hlong)
      exact absurd (hmem.subset (by simp)) hdot
    · exact List.prefix_of_prefix_length_le h (List.prefix_append _ _) hshort
  · push Not at hends
    rwa [stemChars_of_not_endsNumbered hends]

theorem prefix_candidate {start : List Char} (hdot : '.' ∉ start) {name : String}
    (h : start <+: name.toList) (n : Nat) : start <+: (candidate name n).toList := by
  have hstem : start <+: (stem name).toList := by
    simpa [stem] using prefix_stemChars hdot h
  rw [candidate, String.toList_append, String.toList_append]
  exact hstem.trans ((List.prefix_append _ _).trans (List.prefix_append _ _))

theorem prefix_fresh {start : List Char} (hdot : '.' ∉ start) (taken : List String) {name : String}
    (h : start <+: name.toList) : start <+: (fresh taken name).toList := by
  by_cases hm : name ∈ taken
  · obtain ⟨n, -, hn, -⟩ := fresh_of_mem hm
    exact hn ▸ prefix_candidate hdot h (n + 1)
  · rwa [fresh_of_not_mem hm]

structure New (taken names : List String) : Prop where
  distinct : names.Nodup
  free : ∀ name ∈ names, name ∉ taken

theorem New.append {taken names more : List String} (h : New taken names)
    (h' : New (taken ++ names) more) : New taken (names ++ more) := by
  constructor
  · refine h.distinct.append h'.distinct fun name hname hmore => ?_
    exact h'.free name hmore (List.mem_append_right _ hname)
  · intro name hname
    rcases List.mem_append.mp hname with hname | hname
    · exact h.free name hname
    · exact fun htaken => h'.free name hname (List.mem_append_left _ htaken)

end PoseRig.Naming
