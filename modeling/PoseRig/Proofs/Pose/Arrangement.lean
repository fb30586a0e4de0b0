import PoseRig.Pose.Opposite
import PoseRig.Proofs.Naming.Fresh

/-!
# Arranging a library

The operations that put poses into a library, take them out or move them are steps, each with all
that it is given. A pose that comes in gets a name that is free and is selected, so over any list of
steps names stay distinct and the selection stays on a pose. The poses that were there before a step
stay as they were and in their order, but for the one that is removed or moved.
-/

set_option autoImplicit false

namespace PoseRig

def Pose.unnamed (p : Pose) : Pose := { p with name := "" }

namespace Library

inductive Step where
  | push (p : Pose)
  | add (prefs : Preferences)
  | remove (index : Nat)
  | clear
  | duplicate (index : Nat)
  | addOpposite (s : Scene) (rig : String) (prefs : Preferences) (index : Nat)
  | move (direction : MoveDirection)
  | copyFrom (source : Library) (mode : CopyMode)

def orSame (l : Library) : Except Fault Library → Library
  | .ok l' => l'
  | .error _ => l

def step (l : Library) : Step → Library
  | .push p => l.push p
  | .add prefs => l.add prefs
  | .remove index => l.orSame ((l.remove index).map Prod.snd)
  | .clear => .clear
  | .duplicate index => l.orSame (l.duplicate index)
  | .addOpposite s rig prefs index => l.orSame (l.addOpposite s rig prefs index)
  | .move direction => l.move direction
  | .copyFrom source mode => source.copyTo l mode

def run (l : Library) : List Step → Library
  | [] => l
  | c :: r => run (l.step c) r

/-- The poses `more` are the poses `fewer` with `p` put in at a position. -/
def Extra (index : Nat) (p : Pose) (more fewer : List Pose) : Prop :=
  ∃ before after, before.length = index ∧ fewer = before ++ after ∧ more = before ++ p :: after

/-- What a step does to the poses of a library. -/
def Step.Effect (l l' : Library) : Step → Prop
  | .push p => ∃ q, q.unnamed = p.unnamed ∧ Extra l.size q l'.poses l.poses
  | .add _ => ∃ q, q.unnamed = {} ∧ Extra l.size q l'.poses l.poses
  | .remove index => if index < l.size then ∃ p, Extra index p l.poses l'.poses else l' = l
  | .clear => l'.poses = []
  | .duplicate index =>
    if index < l.size then
      ∃ p q, l.poses[index]? = some p ∧ q.unnamed = p.duplicate.unnamed ∧
        Extra (index + 1) q l'.poses l.poses
    else l' = l
  | .addOpposite _ _ _ index =>
    if index < l.size then ∃ q, Extra (index + 1) q l'.poses l.poses else l' = l
  | .move _ =>
    if l.index < l.size then
      ∃ p rest, Extra l.index p l.poses rest ∧ Extra l'.index p l'.poses rest
    else l' = l
  | .copyFrom source mode =>
    ∃ copies, copies.map Pose.unnamed = (source.copied mode).map Pose.unnamed ∧
      l'.poses = l.poses ++ copies

def Step.Keeps : Step → Prop
  | .remove _ => False
  | .clear => False
  | _ => True

/-- The selected position has a pose, if there is one at all. -/
def Selects (l : Library) : Prop := l.index < l.size ∨ l.size = 0 ∧ l.index = 0

/-- Names are distinct, and a pose is selected if there is one. -/
structure Tidy (l : Library) : Prop where
  names : l.names.Nodup
  index : l.Selects

variable {l l' : Library} {p q : Pose} {index : Nat} {more fewer ps : List Pose}

theorem Extra.perm (h : Extra index p more fewer) : more.Perm (p :: fewer) := by
  obtain ⟨before, after, -, rfl, rfl⟩ := h
  exact List.perm_middle

theorem Extra.lt_length (h : Extra index p more fewer) : index < more.length := by
  obtain ⟨before, after, rfl, -, rfl⟩ := h
  simp

theorem Extra.subset (h : Extra index p more fewer) : fewer ⊆ more := by
  intro q hq
  exact h.perm.symm.subset (List.mem_cons_of_mem p hq)

theorem Extra.nodup_names_iff (h : Extra index p more fewer) :
    (more.map (·.name)).Nodup ↔ p.name ∉ fewer.map (·.name) ∧ (fewer.map (·.name)).Nodup :=
  (h.perm.map (·.name)).nodup_iff.trans List.nodup_cons

theorem insertIdx_append (before after : List Pose) (p : Pose) :
    (before ++ after).insertIdx before.length p = before ++ p :: after := by
  induction before with
  | nil => rfl
  | cons q before ih => simpa using ih

theorem extra_insertIdx (h : index ≤ ps.length) : Extra index p (ps.insertIdx index p) ps := by
  have hlength : (ps.take index).length = index := by simp [h]
  refine ⟨ps.take index, ps.drop index, hlength, (List.take_append_drop index ps).symm, ?_⟩
  have hinsert := insertIdx_append (ps.take index) (ps.drop index) p
  rwa [List.take_append_drop, hlength] at hinsert

theorem extra_eraseIdx (h : ps[index]? = some p) : Extra index p ps (ps.eraseIdx index) := by
  obtain ⟨hlt, rfl⟩ := List.getElem?_eq_some_iff.mp h
  refine ⟨ps.take index, ps.drop (index + 1), ?_, List.eraseIdx_eq_take_drop_succ ps index, ?_⟩
  · simp [Nat.le_of_lt hlt]
  · rw [← List.drop_eq_getElem_cons hlt, List.take_append_drop]

theorem extra_concat (ps : List Pose) (p : Pose) : Extra ps.length p (ps ++ [p]) ps :=
  ⟨ps, [], rfl, (List.append_nil ps).symm, rfl⟩

theorem exists_getElem?_of_lt (h : index < l.size) : ∃ p, l.poses[index]? = some p :=
  ⟨_, List.getElem?_eq_getElem h⟩

theorem orSame_get_cases (l : Library) (index : Nat) (f : Pose → Library) :
    (∃ p, index < l.size ∧ l.poses[index]? = some p ∧ l.orSame ((l.get index).map f) = f p) ∨
      ¬index < l.size ∧ l.orSame ((l.get index).map f) = l := by
  by_cases hlt : index < l.size
  · obtain ⟨p, hp⟩ := exists_getElem?_of_lt hlt
    exact Or.inl ⟨p, hlt, hp, by simp [get, hp, Except.map, orSame]⟩
  · have hnone : l.poses[index]? = none := List.getElem?_eq_none (Nat.le_of_not_lt hlt)
    exact Or.inr ⟨hlt, by simp [get, hnone, Except.map, orSame]⟩

theorem orSame_get_of (holds : Library → Prop) {f : Pose → Library} (h : holds l)
    (hf : ∀ p, index < l.size → l.poses[index]? = some p → holds (f p)) :
    holds (l.orSame ((l.get index).map f)) := by
  rcases l.orSame_get_cases index f with ⟨p, hlt, hp, hstep⟩ | ⟨-, hstep⟩
  · rw [hstep]
    exact hf p hlt hp
  · rwa [hstep]

theorem remove_eq (l : Library) (index : Nat) :
    (l.remove index).map Prod.snd = (l.get index).map fun _ =>
      { l with
        poses := l.poses.eraseIdx index
        index := min (index - 1) ((l.poses.eraseIdx index).length - 1) } := by
  unfold remove
  cases l.get index <;> rfl

theorem duplicate_eq (l : Library) (index : Nat) :
    l.duplicate index = (l.get index).map fun p =>
      l.insertAfter index { p.duplicate with name := l.freshName p.name } := by
  unfold duplicate
  cases l.get index <;> rfl

theorem addOpposite_eq (l : Library) (s : Scene) (rig : String) (prefs : Preferences)
    (index : Nat) :
    l.addOpposite s rig prefs index = (l.get index).map fun p =>
      l.insertAfter index (l.oppositeOf s rig prefs p) := by
  unfold addOpposite
  cases l.get index <;> rfl

theorem freshName_not_mem (l : Library) (name : String) : l.freshName name ∉ l.names :=
  Naming.fresh_not_mem l.names name

theorem extra_push (l : Library) (p : Pose) :
    Extra l.size { p with name := l.freshName p.name } (l.push p).poses l.poses :=
  extra_concat l.poses _

theorem extra_insertAfter (h : index < l.size) (p : Pose) :
    Extra (index + 1) p (l.insertAfter index p).poses l.poses :=
  extra_insertIdx h

theorem moveTarget?_lt {direction : MoveDirection} {target : Nat}
    (h : l.moveTarget? direction = some target) : target < l.size := by
  unfold moveTarget? at h
  split at h
  · cases h
  · cases direction <;> simp only [Option.ite_none_right_eq_some, Option.some.injEq] at h <;> omega

theorem extra_move (h : l.index < l.size) (direction : MoveDirection) :
    ∃ p rest, Extra l.index p l.poses rest ∧
      Extra (l.move direction).index p (l.move direction).poses rest := by
  obtain ⟨p, hp⟩ := exists_getElem?_of_lt h
  refine ⟨p, l.poses.eraseIdx l.index, extra_eraseIdx hp, ?_⟩
  cases htarget : l.moveTarget? direction with
  | none =>
    simp only [move, htarget]
    exact extra_eraseIdx hp
  | some target =>
    have hlt := moveTarget?_lt htarget
    simp only [move, htarget, hp]
    apply extra_insertIdx
    rw [List.length_eraseIdx_of_lt h]
    exact Nat.le_sub_one_of_lt hlt

theorem move_of_not_lt (h : ¬l.index < l.size) (direction : MoveDirection) :
    l.move direction = l := by
  have hnone : l.moveTarget? direction = none := by simp [moveTarget?, Nat.le_of_not_lt h]
  simp [move, hnone]

theorem nodup_names_push (h : l.names.Nodup) (p : Pose) : (l.push p).names.Nodup :=
  (extra_push l p).nodup_names_iff.mpr ⟨l.freshName_not_mem p.name, h⟩

theorem nodup_names_foldl_push (h : l.names.Nodup) (ps : List Pose) :
    (ps.foldl push l).names.Nodup := by
  induction ps generalizing l with
  | nil => exact h
  | cons p r ih => exact ih (nodup_names_push h p)

theorem nodup_names_move (h : l.names.Nodup) (direction : MoveDirection) :
    (l.move direction).names.Nodup := by
  by_cases hlt : l.index < l.size
  · -- before and after, the names are those of `p` and `rest`
    obtain ⟨p, rest, hbefore, hafter⟩ := extra_move hlt direction
    exact hafter.nodup_names_iff.mpr (hbefore.nodup_names_iff.mp h)
  · rwa [move_of_not_lt hlt]

theorem Selects.foldl_push (h : l.Selects) (ps : List Pose) :
    (ps.foldl Library.push l).Selects := by
  induction ps generalizing l with
  | nil => exact h
  | cons p r ih => exact ih (Or.inl (extra_push l p).lt_length)

theorem poses_foldl_push (l : Library) (ps : List Pose) :
    ∃ copies, copies.map Pose.unnamed = ps.map Pose.unnamed ∧
      (ps.foldl push l).poses = l.poses ++ copies := by
  induction ps generalizing l with
  | nil => exact ⟨[], rfl, (List.append_nil _).symm⟩
  | cons p r ih =>
    obtain ⟨copies, hcopies, hposes⟩ := ih (l.push p)
    refine ⟨{ p with name := l.freshName p.name } :: copies, ?_, ?_⟩
    · rw [List.map_cons, List.map_cons, hcopies]
      rfl
    · rw [List.foldl_cons, hposes]
      exact List.append_assoc _ _ _

theorem nodup_names_step (h : l.names.Nodup) (c : Step) : (l.step c).names.Nodup := by
  cases c with
  | push p => exact nodup_names_push h p
  | add prefs => exact nodup_names_push h _
  | remove index =>
    rw [Library.step, remove_eq]
    exact orSame_get_of (fun l => l.names.Nodup) h fun p _ hp =>
      ((extra_eraseIdx hp).nodup_names_iff.mp h).2
  | clear => exact List.nodup_nil
  | duplicate index =>
    rw [Library.step, duplicate_eq]
    refine orSame_get_of (fun l => l.names.Nodup) h fun p hlt _ => ?_
    exact (extra_insertAfter hlt _).nodup_names_iff.mpr ⟨l.freshName_not_mem p.name, h⟩
  | addOpposite s rig prefs index =>
    rw [Library.step, addOpposite_eq]
    refine orSame_get_of (fun l => l.names.Nodup) h fun p hlt _ => ?_
    exact (extra_insertAfter hlt _).nodup_names_iff.mpr
      ⟨l.freshName_not_mem (prefs.swapSide p.name), h⟩
  | move direction => exact nodup_names_move h direction
  | copyFrom source mode => exact nodup_names_foldl_push h (source.copied mode)

theorem Selects.step (h : l.Selects) (c : Step) : (l.step c).Selects := by
  cases c with
  | push p => exact Or.inl (extra_push l p).lt_length
  | add prefs => exact Or.inl (extra_push l _).lt_length
  | remove index =>
    rw [Library.step, remove_eq]
    refine orSame_get_of Selects h fun p _ _ => ?_
    simp only [Selects, size]
    omega
  | clear => exact Or.inr ⟨rfl, rfl⟩
  | duplicate index =>
    rw [Library.step, duplicate_eq]
    exact orSame_get_of Selects h fun p hlt _ => Or.inl (extra_insertAfter hlt _).lt_length
  | addOpposite s rig prefs index =>
    rw [Library.step, addOpposite_eq]
    exact orSame_get_of Selects h fun p hlt _ => Or.inl (extra_insertAfter hlt _).lt_length
  | move direction =>
    by_cases hlt : l.index < l.size
    · obtain ⟨p, rest, -, hafter⟩ := extra_move hlt direction
      exact Or.inl hafter.lt_length
    · rwa [Library.step, move_of_not_lt hlt]
  | copyFrom source mode => exact h.foldl_push (source.copied mode)

theorem Tidy.step (h : l.Tidy) (c : Step) : (l.step c).Tidy :=
  ⟨nodup_names_step h.names c, Selects.step h.index c⟩

theorem effect_step (l : Library) (c : Step) : c.Effect l (l.step c) := by
  cases c with
  | push p => exact ⟨{ p with name := l.freshName p.name }, rfl, extra_push l p⟩
  | add prefs => exact ⟨.ofName (l.freshName prefs.defaultName), rfl, extra_push l _⟩
  | remove index =>
    rw [Step.Effect, Library.step, remove_eq]
    rcases l.orSame_get_cases index _ with ⟨p, hlt, hp, hstep⟩ | ⟨hlt, hstep⟩
    · rw [if_pos hlt, hstep]
      exact ⟨p, extra_eraseIdx hp⟩
    · rw [if_neg hlt, hstep]
  | clear => rfl
  | duplicate index =>
    rw [Step.Effect, Library.step, duplicate_eq]
    rcases l.orSame_get_cases index _ with ⟨p, hlt, hp, hstep⟩ | ⟨hlt, hstep⟩
    · rw [if_pos hlt, hstep]
      exact ⟨p, { p.duplicate with name := l.freshName p.name }, hp, rfl, extra_insertAfter hlt _⟩
    · rw [if_neg hlt, hstep]
  | addOpposite s rig prefs index =>
    rw [Step.Effect, Library.step, addOpposite_eq]
    rcases l.orSame_get_cases index _ with ⟨p, hlt, -, hstep⟩ | ⟨hlt, hstep⟩
    · rw [if_pos hlt, hstep]
      exact ⟨l.oppositeOf s rig prefs p, extra_insertAfter hlt _⟩
    · rw [if_neg hlt, hstep]
  | move direction =>
    rw [Step.Effect]
    split
    · exact extra_move ‹_› direction
    · exact move_of_not_lt ‹_› direction
  | copyFrom source mode => exact poses_foldl_push l (source.copied mode)

theorem Step.Effect.subset {c : Step} (h : c.Effect l l') (hc : c.Keeps) : l.poses ⊆ l'.poses := by
  cases c with
  | push p =>
    obtain ⟨q, -, hextra⟩ := h
    exact hextra.subset
  | add prefs =>
    obtain ⟨q, -, hextra⟩ := h
    exact hextra.subset
  | remove index => cases hc
  | clear => cases hc
  | duplicate index =>
    rw [Effect] at h
    split at h
    · obtain ⟨p, q, -, -, hextra⟩ := h
      exact hextra.subset
    · exact fun p hp => h ▸ hp
  | addOpposite s rig prefs index =>
    rw [Effect] at h
    split at h
    · obtain ⟨q, hextra⟩ := h
      exact hextra.subset
    · exact fun p hp => h ▸ hp
  | move direction =>
    rw [Effect] at h
    split at h
    · obtain ⟨p, rest, hbefore, hafter⟩ := h
      exact (hbefore.perm.trans hafter.perm.symm).subset
    · exact fun p hp => h ▸ hp
  | copyFrom source mode =>
    obtain ⟨copies, -, hposes⟩ := h
    rw [hposes]
    exact List.subset_append_left _ _

theorem Tidy.run (h : l.Tidy) (steps : List Step) : (l.run steps).Tidy := by
  induction steps generalizing l with
  | nil => exact h
  | cons c r ih => exact ih (h.step c)

/-- Whatever is done to a tidy library, failing steps included, it is tidy afterwards, and each
further step does to the poses what it says. Only removing and clearing take poses out: other steps
put poses in beside those that are there, or move the selected one among the others. -/
theorem run_arranges (l : Library) (h : l.Tidy) (steps : List Step) :
    (l.run steps).Tidy ∧ ∀ c, c.Effect (l.run steps) ((l.run steps).step c) ∧
      (c.Keeps → (l.run steps).poses ⊆ ((l.run steps).step c).poses) := by
  refine ⟨h.run steps, ?_⟩
  intro c
  have heffect := effect_step (l.run steps) c
  exact ⟨heffect, heffect.subset⟩

def smiles : Library where
  poses := [.ofName "Smile.L", .ofName "Smile.R", .ofName "Pose.001"]
  index := 2

def rearranging : List Step :=
  [.remove 3, .addOpposite {} "Rig" {} 0, .duplicate 5, .add {}, .add {}, .move .top,
    .copyFrom smiles .active, .remove 0]

theorem run_arranges_smiles :
    smiles.Tidy ∧ (smiles.run rearranging).Tidy ∧
      (Step.move .up).Effect (smiles.run rearranging) ((smiles.run rearranging).step (.move .up)) ∧
      (smiles.run rearranging).names =
        ["Smile.L", "Smile.R.001", "Smile.R", "Pose.001", "Pose", "Pose.003"] := by
  have h : smiles.Tidy := ⟨by decide, Or.inl (by decide)⟩
  obtain ⟨htidy, hsteps⟩ := run_arranges smiles h rearranging
  exact ⟨h, htidy, (hsteps (.move .up)).1, by decide +kernel⟩

end Library

end PoseRig
