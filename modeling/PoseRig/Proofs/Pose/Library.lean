import PoseRig.Pose.Actions

/-!
# Finding poses

A position finds a pose of the library. Where names are distinct a name finds the one pose that has
it, and setting an influence changes what that name finds and nothing else.
-/

set_option autoImplicit false

namespace PoseRig

namespace Library

variable {l : Library} {name other : String} {x : Scalar}

theorem get_eq_ok {index : Nat} {p : Pose} : l.get index = .ok p ↔ l.poses[index]? = some p := by
  unfold get
  cases l.poses[index]? <;> simp

theorem getElem?_of_get_error {index : Nat} {e : Fault} (h : l.get index = .error e) :
    l.poses[index]? = none := by
  unfold get at h
  split at h
  · cases h
  · assumption

theorem mem_of_get {index : Nat} {p : Pose} (h : l.get index = .ok p) : p ∈ l.poses :=
  List.mem_of_getElem? (get_eq_ok.mp h)

theorem actionOf_ok {index : Nat} {p : Pose} (h : l.actionOf index = .ok (p, name)) :
    l.get index = .ok p ∧ p.action = some name := by
  unfold actionOf at h
  split at h
  · cases h
  · rename_i q hq
    cases hname : q.action with
    | none => simp [hname] at h
    | some name' =>
      simp only [hname, Except.ok.injEq, Prod.mk.injEq] at h
      obtain ⟨rfl, rfl⟩ := h
      exact ⟨hq, hname⟩

theorem renameAction_ok {l' : Library} {s s' : Scene} {index : Nat} {new final : String}
    (h : l.renameAction s index new = .ok (final, s', l')) :
    ∃ p old, l.actionOf index = .ok (p, old) ∧ s.renameAction old new = .ok (final, s') ∧
      l' = l.retarget old (some final) := by
  unfold renameAction at h
  split at h
  · cases h
  · rename_i p old hold
    split at h
    · cases h
    · rename_i hs
      cases h
      exact ⟨p, old, hold, hs, rfl⟩

theorem find?_of_mem (hnames : l.names.Nodup) {p : Pose} (hp : p ∈ l.poses) :
    l.find? p.name = some p := by
  obtain ⟨poses, index, bonesIndex⟩ := l
  simp only [names, find?] at hnames hp ⊢
  induction poses with
  | nil => cases hp
  | cons q r ih =>
    obtain ⟨hq, hr⟩ := List.nodup_cons.mp hnames
    rcases List.mem_cons.mp hp with rfl | hp
    · rw [List.find?_cons_of_pos (by simp)]
    · have hne : ¬q.name = p.name := by
        intro h
        apply hq
        show q.name ∈ r.map fun p => p.name
        rw [h]
        exact List.mem_map_of_mem hp
      rw [List.find?_cons_of_neg (by simpa using hne)]
      exact ih hr hp

theorem eq_of_name_eq (hnames : l.names.Nodup) {p q : Pose} (hp : p ∈ l.poses) (hq : q ∈ l.poses)
    (h : p.name = q.name) : p = q := by
  have hfind := find?_of_mem hnames hp
  rw [h, find?_of_mem hnames hq] at hfind
  exact (Option.some.inj hfind).symm

end Library

end PoseRig
