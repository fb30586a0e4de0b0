import Mathlib.Data.Nat.Digits.Defs
import Mathlib.Data.Set.Card
import Mathlib.Data.Set.Finite.List
import Mathlib.Order.Bounds.Basic
import PoseRig.Proofs.Naming.Fresh

/-!
# The least free number

A name that is free stays, and a taken one gets the least number that is free, written after its
stem with at least three digits, as long as the counter of thirty-two bits gives that number. It
does whenever fewer names are taken than it has numbers; where more are, there may be no answer
although a later number is free.
-/

set_option autoImplicit false

namespace PoseRig.Naming

variable {taken : String → Bool} {base name : String}

/-- The stem of a name is what stands before a final point and exactly three digits, or else
all of it. -/
def IsStem (base stem : String) : Prop :=
  EndsNumbered base.toList stem.toList ∨ (stem = base ∧ ∀ r, ¬EndsNumbered base.toList r)

theorem isStem_stem (base : String) : IsStem base (stem base) := by
  by_cases h : ∃ r, EndsNumbered base.toList r
  · obtain ⟨r, hr⟩ := h
    left
    rwa [stem, String.toList_ofList, stemChars_of_endsNumbered hr]
  · push Not at h
    right
    refine ⟨?_, h⟩
    rw [stem, stemChars_of_not_endsNumbered h, String.ofList_toList]

def numbered (stem : String) (n : Nat) : String :=
  stem ++ "." ++ String.ofList ((toString n).toList.leftpad 3 '0')

theorem candidate_eq (base : String) (n : Nat) : candidate base n = numbered (stem base) n := by
  have hdigits : (toString n).toList = Nat.toDigits 10 n := String.toList_ofList
  rw [candidate, numbered, threeDigits, hdigits]
  rfl

theorem uniqueName?_of_free (h : taken base = false) : uniqueName? taken base = some base := by
  simp [uniqueName?, h]

theorem uniqueName?_of_taken (h : taken base = true) :
    uniqueName? taken base = some name ↔
      ∃ n, IsLeast {n | 1 ≤ n ∧ taken (candidate base n) = false} n ∧ n ≤ Bounds.counter ∧
        name = candidate base n := by
  rw [uniqueName?, if_pos h, firstFree?_eq_some]
  constructor
  · rintro ⟨n, hle, hlt, hfree, hbefore, rfl⟩
    refine ⟨n, ⟨⟨hle, hfree⟩, ?_⟩, by omega, rfl⟩
    rintro m ⟨hm, hmfree⟩
    by_contra hmn
    simp [hbefore m hm (by omega)] at hmfree
  · rintro ⟨n, ⟨⟨hle, hfree⟩, hleast⟩, hlt, rfl⟩
    refine ⟨n, hle, by omega, hfree, fun k hk hkn => ?_, rfl⟩
    by_contra hkfree
    exact absurd (hleast ⟨hk, by simpa using hkfree⟩) (by omega)

theorem exists_free_number (hfinite : {s | taken s = true}.Finite) (base : String) :
    ∃ n, 1 ≤ n ∧ n ≤ {s | taken s = true}.ncard + 1 ∧ taken (candidate base n) = false := by
  obtain ⟨i, hi, hfree⟩ := exists_free_candidate hfinite.toFinset.toList base
  rw [Finset.length_toList, ← Set.ncard_eq_toFinset_card _ hfinite, List.mem_range] at hi
  exact ⟨i + 1, by omega, by omega, by simpa using hfree⟩

theorem exists_uniqueName (hfinite : {s | taken s = true}.Finite)
    (hfew : {s | taken s = true}.ncard < Bounds.counter) (base : String) :
    ∃ name, uniqueName? taken base = some name := by
  cases h : taken base with
  | false => exact ⟨base, uniqueName?_of_free h⟩
  | true =>
    obtain ⟨n, hpos, hle, hfree⟩ := exists_free_number hfinite base
    rw [← Option.isSome_iff_exists, Option.isSome_iff_ne_none, uniqueName?, if_pos h, ne_eq,
      firstFree?_eq_none]
    intro hall
    simp [hall n hpos (by omega)] at hfree

/-- Beside names in a list the counter finds the name that an unbounded search finds. -/
theorem uniqueName?_contains {names : List String} (hfew : names.length < Bounds.counter)
    (base : String) : uniqueName? names.contains base = some (fresh names base) := by
  by_cases h : base ∈ names
  · obtain ⟨n, hle, hfresh, hfree, hbefore⟩ := fresh_of_mem h
    rw [uniqueName?_of_taken (by simpa using h)]
    refine ⟨n + 1, ⟨⟨by omega, by simpa using hfree⟩, ?_⟩, by omega, hfresh⟩
    rintro m ⟨hm, hmfree⟩
    obtain ⟨k, rfl⟩ := Nat.exists_eq_add_of_le' hm
    by_contra hlt
    simp [hbefore k (by omega)] at hmfree
  · rw [uniqueName?_of_free (by simpa using h), fresh_of_not_mem h]

/-- Whatever is taken, a free name stays, and a taken one gets the least free number after its
stem, exactly when the counter comes to that number; it does when fewer names are taken than the
counter has numbers. The name that is found is free and keeps whatever the name starts with up to
its first point. -/
theorem uniqueName_least (taken : String → Bool) (base : String) :
    (taken base = false → uniqueName? taken base = some base) ∧
    (taken base = true → ∃ stem, IsStem base stem ∧ ∀ name, uniqueName? taken base = some name ↔
      ∃ n, IsLeast {n | 1 ≤ n ∧ taken (numbered stem n) = false} n ∧ n ≤ Bounds.counter ∧
        name = numbered stem n) ∧
    ({s | taken s = true}.Finite → {s | taken s = true}.ncard < Bounds.counter →
      ∃ name, uniqueName? taken base = some name) ∧
    ∀ name, uniqueName? taken base = some name → taken name = false ∧
      ∀ start : List Char, '.' ∉ start → start <+: base.toList → start <+: name.toList := by
  refine ⟨uniqueName?_of_free, fun h => ⟨stem base, isStem_stem base, fun name => ?_⟩,
    fun hfinite hfew => exists_uniqueName hfinite hfew base, fun name hname => ?_⟩
  · simp only [← candidate_eq]
    exact uniqueName?_of_taken h
  · cases h : taken base with
    | false =>
      rw [uniqueName?_of_free h] at hname
      obtain rfl := Option.some.inj hname
      exact ⟨h, fun _ _ hstart => hstart⟩
    | true =>
      obtain ⟨n, ⟨⟨-, hfree⟩, -⟩, -, rfl⟩ := (uniqueName?_of_taken h).mp hname
      exact ⟨hfree, fun _ hdot hstart => prefix_candidate hdot hstart n⟩

theorem uniqueName_least_pose :
    ["Pose.001", "Pose.002", "Pose"].contains "Pose.001" = true ∧
    {s | ["Pose.001", "Pose.002", "Pose"].contains s = true}.Finite ∧
    {s | ["Pose.001", "Pose.002", "Pose"].contains s = true}.ncard < Bounds.counter ∧
    (∃ stem n, IsStem "Pose.001" stem ∧
      IsLeast {n | 1 ≤ n ∧ ["Pose.001", "Pose.002", "Pose"].contains (numbered stem n) = false} n ∧
      "Pose.003" = numbered stem n) ∧
    uniqueName? ["Pose.001", "Pose.002", "Pose"].contains "Pose.001" = some "Pose.003" := by
  have hset : {s | ["Pose.001", "Pose.002", "Pose"].contains s = true} =
      ↑({"Pose.001", "Pose.002", "Pose"} : Finset String) := by
    ext s
    simp
  have hfinite : {s | ["Pose.001", "Pose.002", "Pose"].contains s = true}.Finite :=
    hset ▸ Finset.finite_toSet _
  have hfew : {s | ["Pose.001", "Pose.002", "Pose"].contains s = true}.ncard < Bounds.counter := by
    rw [hset, Set.ncard_coe_finset]
    decide
  obtain ⟨-, htaken, hfound, -⟩ :=
    uniqueName_least ["Pose.001", "Pose.002", "Pose"].contains "Pose.001"
  obtain ⟨stem, hstem, hleast⟩ := htaken (by decide)
  obtain ⟨name, hname⟩ := hfound hfinite hfew
  have hpose :
      uniqueName? ["Pose.001", "Pose.002", "Pose"].contains "Pose.001" = some "Pose.003" := by
    decide
  obtain ⟨n, hn, -, rfl⟩ := (hleast name).mp hname
  have heq := Option.some.inj (hpose.symm.trans hname)
  exact ⟨by decide, hfinite, hfew, ⟨stem, n, hstem, hn, heq⟩, hpose⟩

theorem finite_length_le (k : Nat) : {s : String | s.length ≤ k}.Finite := by
  have hchars : Finite Char := by
    have hbelow : ∀ c : Char, c.toNat < 0x110000 := fun c => by
      rcases c.valid with h | ⟨-, h⟩
      · exact Nat.lt_trans h (by decide)
      · exact h
    apply Finite.of_injective fun c : Char => (⟨c.toNat, hbelow c⟩ : Fin 0x110000)
    exact fun c d h => Char.toNat_inj.mp (Fin.mk.inj h)
  have hlists := (List.finite_length_le Char k).preimage
    (f := String.toList) fun s _ t _ h => String.toList_injective h
  simpa [Set.preimage, String.length_toList] using hlists

/-- Names of up to fourteen characters, more than the counter has numbers. -/
def isShort (name : String) : Bool := decide (name.length ≤ 14)

/-- Finitely many names are short, and a number after `a` makes one that is not, but the counter
does not come to it. -/
theorem uniqueName_overflows_short :
    {s | isShort s = true}.Finite ∧ IsStem "a" "a" ∧ isShort (numbered "a" (10 ^ 12)) = false ∧
      uniqueName? isShort "a" = none := by
  refine ⟨by simpa [isShort] using finite_length_le 14, isStem_stem "a", by decide, ?_⟩
  rw [uniqueName?, if_pos (by decide), firstFree?_eq_none]
  intro n hpos hlt
  have hdigits : (Nat.toDigits 10 n).length ≤ 10 :=
    Nat.toDigits_length 10 n 10 (by decide) (by simp only [Bounds.counter] at hlt; omega)
  have hstem : (stem "a").length = 1 := by decide
  simp only [isShort, candidate, threeDigits, decide_eq_true_eq, String.length_append,
    String.length_ofList, List.length_append, List.length_replicate, hstem]
  have hpoint : ".".length = 1 := by decide
  omega

end PoseRig.Naming
