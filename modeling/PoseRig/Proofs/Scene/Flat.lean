import PoseRig.Proofs.Number.Multiple
import PoseRig.Proofs.Scene.Groups

/-!
# Flat curves in exact arithmetic

A key counts by its exact value in units of the fifth decimal place, rounded half away from zero
and held within sixty-four bits. A curve is dropped as flat exactly when its keys have one
rounded value, or when all of them lie beyond the same end of the sixty-four bits; those may
differ by any amount.
-/

set_option autoImplicit false

namespace PoseRig

namespace Scalar

/-- The exact value in units of the fifth decimal place, rounded half away from zero. -/
def fifths (x : Scalar) : ℤ := roundAway (toRat x * 100000)

theorem roundTimes?_fifths {x : Scalar} (h : isFinite x = true) :
    roundTimes? 100000 x = some (fifths x) := by
  rw [roundTimes?_of_finite h, Nat.cast_ofNat]
  rfl

theorem abs_toRat_sub_le {x y : Scalar} (h : fifths x = fifths y) :
    |toRat x - toRat y| ≤ 1 / 100000 := by
  have hx := abs_le.mp (abs_sub_roundAway_le (toRat x * 100000))
  have hy := abs_le.mp (abs_sub_roundAway_le (toRat y * 100000))
  have hround : (roundAway (toRat x * 100000) : ℚ) = roundAway (toRat y * 100000) := by
    exact_mod_cast h
  rw [hround] at hx
  rw [abs_le]
  exact ⟨by linarith [hx.1, hy.2], by linarith [hx.2, hy.1]⟩

end Scalar

namespace Curve

variable {c : Curve}

theorem flatUnits_of_finite {x : Scalar} (h : x.isFinite = true) :
    flatUnits x = max (-Bounds.long) (min (Bounds.long - 1) x.fifths) := by
  have hround := Scalar.roundTimes?_fifths h
  rw [Scalar.roundTimes?, Scalar.classify_of_finite h] at hround
  rw [flatUnits, Scalar.classify_of_finite h]
  dsimp only
  rw [Scalar.roundedMultiple_doubleMultiple (of_decide_eq_true h) (by decide),
    Option.some.inj hround]

theorem isFlat_iff :
    c.isFlat = true ↔
      ∀ k ∈ c.keyframes, ∀ l ∈ c.keyframes, flatUnits k.value = flatUnits l.value := by
  unfold isFlat
  cases hkeys : c.keyframes with
  | nil => simp
  | cons first rest =>
    simp only [List.map_cons, List.all_map, List.all_eq_true, Function.comp_apply, beq_iff_eq]
    constructor
    · intro h
      have hfirst : ∀ k ∈ first :: rest, flatUnits k.value = flatUnits first.value := by
        intro k hk
        rcases List.mem_cons.mp hk with rfl | hk
        · rfl
        · exact h k hk
      intro k hk l hl
      rw [hfirst k hk, hfirst l hl]
    · intro h k hk
      exact h k (List.mem_cons_of_mem first hk) first List.mem_cons_self

def FiniteKeys (c : Curve) : Prop := ∀ k ∈ c.keyframes, k.value.isFinite = true

/-- All keys have one value at the fifth decimal place. -/
def Level (c : Curve) : Prop :=
  ∀ k ∈ c.keyframes, ∀ l ∈ c.keyframes, k.value.fifths = l.value.fifths

/-- All keys are as great as sixty-four bits can count, or all are as little. -/
def OffScale (c : Curve) : Prop :=
  (∀ k ∈ c.keyframes, Bounds.long - 1 ≤ k.value.fifths) ∨
  (∀ k ∈ c.keyframes, k.value.fifths ≤ -Bounds.long)

instance : DecidablePred FiniteKeys := fun c => inferInstanceAs (Decidable (∀ k ∈ c.keyframes, _))

instance : DecidablePred Level := fun c =>
  inferInstanceAs (Decidable (∀ k ∈ c.keyframes, ∀ l ∈ c.keyframes, _))

instance : DecidablePred OffScale := fun c =>
  inferInstanceAs (Decidable ((∀ k ∈ c.keyframes, _) ∨ (∀ k ∈ c.keyframes, _)))

theorem held_eq_iff (u v : ℤ) :
    max (-Bounds.long) (min (Bounds.long - 1) u) = max (-Bounds.long) (min (Bounds.long - 1) v) ↔
      u = v ∨ (Bounds.long - 1 ≤ u ∧ Bounds.long - 1 ≤ v) ∨
      (u ≤ -Bounds.long ∧ v ≤ -Bounds.long) := by
  unfold Bounds.long
  omega

theorem isFlat_iff_level (h : c.FiniteKeys) : c.isFlat = true ↔ c.Level ∨ c.OffScale := by
  have hheld : ∀ k ∈ c.keyframes, ∀ l ∈ c.keyframes, (flatUnits k.value = flatUnits l.value ↔
      k.value.fifths = l.value.fifths ∨
        (Bounds.long - 1 ≤ k.value.fifths ∧ Bounds.long - 1 ≤ l.value.fifths) ∨
        (k.value.fifths ≤ -Bounds.long ∧ l.value.fifths ≤ -Bounds.long)) := by
    intro k hk l hl
    rw [flatUnits_of_finite (h k hk), flatUnits_of_finite (h l hl), held_eq_iff]
  rw [isFlat_iff]
  constructor
  · intro hflat
    by_cases hlevel : c.Level
    · exact Or.inl hlevel
    · -- two keys that differ lie beyond one end, and every other key goes with one of them
      unfold Level at hlevel
      push Not at hlevel
      obtain ⟨k, hk, l, hl, hne⟩ := hlevel
      rcases ((hheld k hk l hl).mp (hflat k hk l hl)).resolve_left hne with hhigh | hlow
      · refine Or.inr (Or.inl fun i hi => ?_)
        have hki := (hheld k hk i hi).mp (hflat k hk i hi)
        unfold Bounds.long at *
        omega
      · refine Or.inr (Or.inr fun i hi => ?_)
        have hki := (hheld k hk i hi).mp (hflat k hk i hi)
        unfold Bounds.long at *
        omega
  · rintro (hlevel | hhigh | hlow) k hk l hl
    · exact (hheld k hk l hl).mpr (Or.inl (hlevel k hk l hl))
    · exact (hheld k hk l hl).mpr (Or.inr (Or.inl ⟨hhigh k hk, hhigh l hl⟩))
    · exact (hheld k hk l hl).mpr (Or.inr (Or.inr ⟨hlow k hk, hlow l hl⟩))

end Curve

namespace Action

/-- Of an action whose keys are all finite, leaving out the flat curves drops those whose keys
have one value at the fifth decimal place and those that are off the scale; the others stay as
they are and in order. No curve on the scale is dropped that has two keys more than one unit of
that place apart. -/
theorem curves_withoutFlat (a : Action) (h : ∀ c ∈ a.curves, c.FiniteKeys) :
    (∀ c ∈ a.curves, c.isFlat = true ↔ c.Level ∨ c.OffScale) ∧
      a.withoutFlat.curves = a.curves.filter (fun c => ¬(c.Level ∨ c.OffScale)) ∧
      ∀ c ∈ a.curves, ¬c.OffScale → ∀ k ∈ c.keyframes, ∀ l ∈ c.keyframes,
        1 / 100000 < |k.value.toRat - l.value.toRat| → c ∈ a.withoutFlat.curves := by
  have hflat : ∀ c ∈ a.curves, (c.isFlat = true ↔ c.Level ∨ c.OffScale) :=
    fun c hc => Curve.isFlat_iff_level (h c hc)
  have hcurves : a.withoutFlat.curves = a.curves.filter (fun c => ¬(c.Level ∨ c.OffScale)) := by
    apply List.filter_congr
    intro c hc
    rw [Bool.eq_iff_iff, Bool.not_eq_true', decide_eq_true_iff, ← hflat c hc, Bool.not_eq_true]
  refine ⟨hflat, hcurves, fun c hc hscale k hk l hl hfar => ?_⟩
  rw [hcurves, List.mem_filter]
  refine ⟨hc, decide_eq_true ?_⟩
  rintro (hlevel | hoff)
  · exact absurd (Scalar.abs_toRat_sub_le (hlevel k hk l hl)) (not_le.mpr hfar)
  · exact hscale hoff

def towerCurve : Curve where
  dataPath := "location"
  keyframes := [⟨0, 1e20⟩, ⟨10, 2e20⟩]

def swingCurve : Curve where
  dataPath := "location"
  arrayIndex := 1
  group := some "Jaw"
  keyframes := [⟨0, 0⟩, ⟨5, 0.2⟩, ⟨10, 0⟩]

def towerAction : Action where
  curves :=
    [swingCurve, { dataPath := "scale", keyframes := [⟨0, 1⟩, ⟨10, 1.000001⟩] }, towerCurve,
      { dataPath := "location", arrayIndex := 2, keyframes := [⟨0, -9.2e13⟩, ⟨10, 9.2e13⟩] }]
  groups := ["Jaw"]

theorem curves_withoutFlat_tower :
    (∀ c ∈ towerAction.curves, c.FiniteKeys) ∧
      towerAction.withoutFlat.curves = towerAction.curves.filter
        (fun c => ¬(c.Level ∨ c.OffScale)) ∧
      swingCurve ∈ towerAction.withoutFlat.curves ∧
      towerAction.withoutFlat.curves.map (fun c => (c.dataPath, c.arrayIndex)) =
        [("location", 1), ("location", 2)] := by
  have hfinite : ∀ c ∈ towerAction.curves, c.FiniteKeys := by decide
  obtain ⟨hflat, hcurves, hfar⟩ := curves_withoutFlat towerAction hfinite
  have hmem : swingCurve ∈ towerAction.curves := List.mem_cons_self
  refine ⟨hfinite, hcurves, hfar swingCurve hmem ?_ ⟨0, 0⟩ List.mem_cons_self ⟨5, 0.2⟩
    (List.mem_cons_of_mem _ List.mem_cons_self) ?_, by decide⟩
  · intro hoff
    have := (hflat swingCurve hmem).mpr (Or.inr hoff)
    revert this
    decide
  · rw [Scalar.toRat_zero, Scalar.toRat_eq (m := 13421773) (e := -26) (by decide)
      (by decide) (by decide)]
    norm_num

/-- Sixty-four bits cannot tell the keys of that curve apart, so it is dropped. -/
theorem towerCurve_dropped :
    towerCurve.FiniteKeys ∧ towerCurve.isFlat = true ∧ ¬towerCurve.Level ∧
      (∃ k ∈ towerCurve.keyframes, ∃ l ∈ towerCurve.keyframes,
        1 / 100000 < |k.value.toRat - l.value.toRat|) ∧
      ({ curves := [towerCurve] } : Action).withoutFlat.curves = [] := by
  have hfar : 1 / 100000 < |Scalar.toRat 1e20 - Scalar.toRat 2e20| := by
    rw [Scalar.toRat_eq (m := 11368684) (e := 43) (by decide) (by decide) (by decide),
      Scalar.toRat_eq (m := 11368684) (e := 44) (by decide) (by decide) (by decide)]
    norm_num
  have hflat : towerCurve.isFlat = true := by decide
  have hfirst : ⟨0, 1e20⟩ ∈ towerCurve.keyframes := List.mem_cons_self
  have hlast : ⟨10, 2e20⟩ ∈ towerCurve.keyframes := List.mem_cons_of_mem _ List.mem_cons_self
  refine ⟨by decide, hflat, fun hlevel => ?_, ⟨_, hfirst, _, hlast, hfar⟩,
    by simp [withoutFlat, hflat]⟩
  exact absurd (Scalar.abs_toRat_sub_le (hlevel _ hfirst _ hlast)) (not_le.mpr hfar)

end Action

end PoseRig
