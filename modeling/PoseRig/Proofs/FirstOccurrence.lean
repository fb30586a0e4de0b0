import Mathlib.Data.List.Nodup

/-!
# First occurrences

`List.eraseDups` keeps each member of a list where it stands first. A list to which members are
added one by one, each unless it is there, gets the first occurrences of those that it lacked.
-/

set_option autoImplicit false

namespace PoseRig.FirstOccurrence

universe u v

variable {α : Type u} {β : Type v} [DecidableEq α]

theorem nodup_eraseDups (xs : List α) : xs.eraseDups.Nodup := by
  match xs with
  | [] => exact List.nodup_nil
  | x :: r =>
    rw [List.eraseDups_cons, List.nodup_cons]
    refine ⟨?_, nodup_eraseDups _⟩
    simp [List.mem_eraseDups]
termination_by xs.length
decreasing_by exact Nat.lt_succ_of_le (List.length_filter_le _ r)

theorem eraseDups_of_nodup {xs : List α} (h : xs.Nodup) : xs.eraseDups = xs := by
  induction xs with
  | nil => rfl
  | cons x r ih =>
    obtain ⟨hx, hr⟩ := List.nodup_cons.mp h
    have hfilter : r.filter (fun y => !y == x) = r := by
      apply List.filter_eq_self.mpr
      intro y hy
      have hne : y ≠ x := fun heq => hx (heq ▸ hy)
      simpa using hne
    rw [List.eraseDups_cons, hfilter, ih hr]

theorem pairwise_eraseDups {before : β → β → Prop} (mark : β → α) (places : List β)
    (h : places.Pairwise before) :
    (places.map mark).eraseDups.Pairwise fun a b =>
      ∃ p ∈ places, mark p = a ∧ ∀ q ∈ places, mark q = b → before p q := by
  match places with
  | [] => exact .nil
  | p :: rest =>
    obtain ⟨hp, hrest⟩ := List.pairwise_cons.mp h
    have hfilter : (rest.map mark).filter (fun a => !a == mark p) =
        (rest.filter fun q => !mark q == mark p).map mark := List.filter_map
    rw [List.map_cons, List.eraseDups_cons, hfilter, List.pairwise_cons]
    -- what is marked like a later member stands among the places that are left
    have hleft : ∀ b ∈ ((rest.filter fun q => !mark q == mark p).map mark).eraseDups,
        ∀ q ∈ p :: rest, mark q = b → q ∈ rest.filter fun q => !mark q == mark p := by
      intro b hb q hq hqb
      obtain ⟨q', hq', rfl⟩ := List.mem_map.mp (List.mem_eraseDups.mp hb)
      have hne : mark q ≠ mark p := by
        rw [hqb]
        simpa using (List.mem_filter.mp hq').2
      have hqrest : q ∈ rest :=
        (List.mem_cons.mp hq).resolve_left fun heq => hne (congrArg mark heq)
      exact List.mem_filter.mpr ⟨hqrest, by simpa using hne⟩
    constructor
    · intro b hb
      refine ⟨p, List.mem_cons_self, rfl, fun q hq hqb => ?_⟩
      exact hp q (List.mem_filter.mp (hleft b hb q hq hqb)).1
    · refine (pairwise_eraseDups mark _ (hrest.filter _)).imp_of_mem fun _ hb hab => ?_
      obtain ⟨q, hq, hqa, hbefore⟩ := hab
      refine ⟨q, List.mem_cons_of_mem p (List.mem_filter.mp hq).1, hqa, fun q' hq' hqb => ?_⟩
      exact hbefore q' (hleft _ hb q' hq' hqb) hqb
termination_by places.length
decreasing_by exact Nat.lt_succ_of_le (List.length_filter_le _ rest)

def addNew (key : β → α) (make : α → β) (bs : List β) (a : α) : List β :=
  if a ∈ bs.map key then bs else bs ++ [make a]

theorem foldl_addNew (key : β → α) (make : α → β) (hkey : ∀ a, key (make a) = a) (as : List α)
    (bs : List β) :
    as.foldl (addNew key make) bs =
      bs ++ (as.filter fun a => a ∉ bs.map key).eraseDups.map make := by
  induction as generalizing bs with
  | nil => simp
  | cons a r ih =>
    rw [List.foldl_cons, addNew]
    by_cases ha : a ∈ bs.map key
    · rw [if_pos ha, ih, List.filter_cons_of_neg (by simpa using ha)]
    · have hfilter : r.filter (fun b => b ∉ (bs ++ [make a]).map key) =
          (r.filter fun b => b ∉ bs.map key).filter fun b => !b == a := by
        rw [List.filter_filter]
        apply List.filter_congr
        intro b _
        rw [Bool.eq_iff_iff]
        simp [hkey, not_or, and_comm]
      rw [if_neg ha, ih, List.filter_cons_of_pos (by simpa using ha), List.eraseDups_cons, hfilter,
        List.map_cons, List.append_assoc]
      rfl

end PoseRig.FirstOccurrence
