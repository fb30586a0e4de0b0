import PoseRig.Naming.Side

/-!
# Swapping sides twice

Two side suffixes can be told apart when neither is empty or ends in the other. Then no name is on
both sides, and a name that has changed sides changes back. Of any other two suffixes that differ,
one is lost when it is swapped away, or what was in front of it is swapped once more.
-/

set_option autoImplicit false

namespace PoseRig.Naming

/-- Two suffixes that no name can have both. -/
structure SidesApart (left right : String) : Prop where
  left_ne : left ≠ ""
  right_ne : right ≠ ""
  left_not_suffix : ¬left.toList <:+ right.toList
  right_not_suffix : ¬right.toList <:+ left.toList

section

variable {ending cs : List Char}

theorem withoutEnding?_nil (cs : List Char) : withoutEnding? [] cs = none := rfl

theorem withoutEnding?_of_not_suffix (h : ¬ending <:+ cs) : withoutEnding? ending cs = none := by
  simp [withoutEnding?, h]

theorem withoutEnding?_append (h : ending ≠ []) (stem : List Char) :
    withoutEnding? ending (stem ++ ending) = some stem := by
  simp [withoutEnding?, h]

theorem withoutEnding?_of_nil (ending : List Char) : withoutEnding? ending [] = none := by
  cases ending with
  | nil => rfl
  | cons c r => exact withoutEnding?_of_not_suffix (by simp)

end

variable {left right cs : List Char}

theorem swapSideChars_left (h : left ≠ []) (stem : List Char) :
    swapSideChars left right (stem ++ left) = stem ++ right := by
  rw [swapSideChars, withoutEnding?_append h]

theorem swapSideChars_right (h : right ≠ []) {stem : List Char}
    (hleft : withoutEnding? left (stem ++ right) = none) :
    swapSideChars left right (stem ++ right) = stem ++ left := by
  rw [swapSideChars, hleft, withoutEnding?_append h]

theorem swapSideChars_neither (hleft : withoutEnding? left cs = none)
    (hright : withoutEnding? right cs = none) : swapSideChars left right cs = cs := by
  rw [swapSideChars, hleft, hright]

theorem swapSideChars_nil (left right : List Char) : swapSideChars left right [] = [] :=
  swapSideChars_neither (withoutEnding?_of_nil left) (withoutEnding?_of_nil right)

theorem swapSideChars_same (side cs : List Char) : swapSideChars side side cs = cs := by
  by_cases hside : side = []
  · rw [hside]
    exact swapSideChars_neither (withoutEnding?_nil cs) (withoutEnding?_nil cs)
  · by_cases hsuffix : side <:+ cs
    · obtain ⟨stem, rfl⟩ := hsuffix
      exact swapSideChars_left hside stem
    · have hnone := withoutEnding?_of_not_suffix hsuffix
      exact swapSideChars_neither hnone hnone

theorem swapSideChars_swapSideChars (hleft : left ≠ []) (hright : right ≠ [])
    (hlr : ¬left <:+ right) (hrl : ¬right <:+ left) (cs : List Char) :
    swapSideChars left right (swapSideChars left right cs) = cs := by
  by_cases hl : left <:+ cs
  · obtain ⟨stem, rfl⟩ := hl
    -- a name that ended in both would make one suffix the end of the other
    have hnot : ¬left <:+ stem ++ right := fun hl =>
      (List.suffix_or_suffix_of_suffix hl (List.suffix_append stem right)).elim hlr hrl
    rw [swapSideChars_left hleft, swapSideChars_right hright (withoutEnding?_of_not_suffix hnot)]
  · have hnone := withoutEnding?_of_not_suffix hl
    by_cases hr : right <:+ cs
    · obtain ⟨stem, rfl⟩ := hr
      rw [swapSideChars_right hright hnone, swapSideChars_left hleft]
    · have hsame := swapSideChars_neither hnone (withoutEnding?_of_not_suffix hr)
      rw [hsame, hsame]

theorem SidesApart.swapSide_swapSide {left right : String} (h : SidesApart left right)
    (name : String) : swapSide left right (swapSide left right name) = name := by
  have hchars := swapSideChars_swapSideChars (mt String.toList_eq_nil_iff.mp h.left_ne)
    (mt String.toList_eq_nil_iff.mp h.right_ne) h.left_not_suffix h.right_not_suffix name.toList
  rw [swapSide, swapSide, String.toList_ofList, hchars, String.ofList_toList]

section

variable (h : ∀ cs, swapSideChars left right (swapSideChars left right cs) = cs)

include h

theorem eq_nil_of_swapSideChars (hswap : swapSideChars left right cs = []) : cs = [] := by
  have hback := h cs
  rw [hswap, swapSideChars_nil] at hback
  exact hback.symm

theorem right_eq_nil (hleft : left = []) : right = [] := by
  subst hleft
  by_cases hright : right = []
  · exact hright
  · have hswap := swapSideChars_right hright (withoutEnding?_nil ([] ++ right))
    exact eq_nil_of_swapSideChars h hswap

theorem left_eq_nil (hright : right = []) : left = [] := by
  subst hright
  by_cases hleft : left = []
  · exact hleft
  · exact eq_nil_of_swapSideChars h (swapSideChars_left hleft [])

theorem eq_of_left_suffix (hleft : left ≠ []) (hsuffix : left <:+ right) : left = right := by
  obtain ⟨u, rfl⟩ := hsuffix
  -- this name gains u with every swap
  have hback := h (u ++ left)
  rw [swapSideChars_left hleft, ← List.append_assoc, swapSideChars_left hleft] at hback
  have hu : u ++ u = [] := List.append_left_eq_self.mp hback
  rw [(List.append_eq_nil_iff.mp hu).1, List.nil_append]

theorem eq_of_right_suffix (hright : right ≠ []) (hsuffix : right <:+ left) : left = right := by
  obtain ⟨u, rfl⟩ := hsuffix
  have hleft : u ++ right ≠ [] := fun hnil => hright (List.append_eq_nil_iff.mp hnil).2
  -- this name is swapped to the left suffix, which is then swapped as well
  have hback := h (u ++ (u ++ right))
  have hbare : swapSideChars (u ++ right) right ([] ++ (u ++ right)) = [] ++ right :=
    swapSideChars_left hleft []
  rw [List.nil_append, List.nil_append] at hbare
  rw [swapSideChars_left hleft, hbare, ← List.append_assoc] at hback
  have hu : u ++ u = [] := List.self_eq_append_left.mp hback
  rw [(List.append_eq_nil_iff.mp hu).1, List.nil_append]

end

/-- Swapping the sides of a name twice gives every name back exactly when there is nothing to swap
or the two suffixes can be told apart. -/
theorem swapSide_involutive_iff (left right : String) :
    (∀ name, swapSide left right (swapSide left right name) = name) ↔
      left = right ∨ SidesApart left right := by
  constructor
  · intro h
    have hchars (cs : List Char) : swapSideChars left.toList right.toList
        (swapSideChars left.toList right.toList cs) = cs := by
      simpa [swapSide, ← String.toList_inj] using h (String.ofList cs)
    by_cases hsame : left = right
    · exact Or.inl hsame
    have hne : left.toList ≠ right.toList := mt String.toList_inj.mp hsame
    have hleft : left.toList ≠ [] := fun hnil => hne (hnil.trans (right_eq_nil hchars hnil).symm)
    have hright : right.toList ≠ [] := fun hnil => hne ((left_eq_nil hchars hnil).trans hnil.symm)
    refine Or.inr ⟨mt String.toList_eq_nil_iff.mpr hleft,
      mt String.toList_eq_nil_iff.mpr hright, ?_, ?_⟩
    · exact fun hsuffix => hne (eq_of_left_suffix hchars hleft hsuffix)
    · exact fun hsuffix => hne (eq_of_right_suffix hchars hright hsuffix)
  · rintro (rfl | h) name
    · simp [swapSide, swapSideChars_same]
    · exact h.swapSide_swapSide name

end PoseRig.Naming
