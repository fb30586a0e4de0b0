import PoseRig.Network.Compile
import PoseRig.Proofs.Network.Names
import PoseRig.Proofs.Table

/-!
# Placing constraints

Placing a pose changes an armature only by adding constraints to its bones, so a view of the bones
that takes an added constraint back does not see that the pose was placed. Each entry that finds its
bone puts one constraint at the end of it, under a name that was free there.
-/

set_option autoImplicit false

namespace PoseRig

namespace Bone

theorem removeConstraints_addConstraint (b : Bone) (c : Constraint) {p : String → Bool}
    (h : p (b.freshName c.name) = true) :
    (b.addConstraint c).removeConstraints p = b.removeConstraints p := by
  simp [addConstraint, removeConstraints, h]

theorem removeConstraints_idem (b : Bone) (p : String → Bool) :
    (b.removeConstraints p).removeConstraints p = b.removeConstraints p := by
  simp [removeConstraints]

def extend (b : Bone) (cs : List Constraint) : Bone := { b with constraints := b.constraints ++ cs }

@[simp] theorem extend_nil (b : Bone) : b.extend [] = b := by simp [extend]

@[simp] theorem extend_extend (b : Bone) (cs ds : List Constraint) :
    (b.extend cs).extend ds = b.extend (cs ++ ds) := by simp [extend]

theorem addConstraint_eq (b : Bone) (c : Constraint) :
    b.addConstraint c = b.extend [{ c with name := b.freshName c.name }] := rfl

theorem constraintNames_extend (b : Bone) (cs : List Constraint) :
    (b.extend cs).constraintNames = b.constraintNames ++ cs.map (·.name) := by
  simp [constraintNames, extend]

end Bone

namespace Network

universe u

theorem bones_map_place {β : Type u} (p : Pose) (name : String) (time : Scalar)
    (g : String → Bone → β)
    (hg : ∀ n b e, g n (b.addConstraint (p.constraintFor name time e)) = g n b)
    (es : List BoneEntry) (a : Armature) :
    (place p name time es a).armature.bones.map g = a.bones.map g := by
  induction es generalizing a with
  | nil => rfl
  | cons e r ih =>
    cases hb : a.bones.get? e.bone with
    | none => simpa [place, hb] using ih a
    | some b =>
      simp only [place, hb]
      rw [ih]
      exact Table.map_update a.bones e.bone _ g fun b' _ => hg e.bone b' e

theorem activeBone_place (p : Pose) (name : String) (time : Scalar) (es : List BoneEntry)
    (a : Armature) : (place p name time es a).armature.activeBone = a.activeBone := by
  induction es generalizing a with
  | nil => rfl
  | cons e r ih =>
    cases hb : a.bones.get? e.bone with
    | none => simpa [place, hb] using ih a
    | some b => simpa [place, hb, Armature.updateBone] using ih _

theorem contains_place (p : Pose) (name : String) (time : Scalar) (es : List BoneEntry)
    (a : Armature) (bone : String) :
    (place p name time es a).armature.bones.contains bone = a.bones.contains bone := by
  have hnames := bones_map_place p name time (fun _ _ => ()) (fun _ _ _ => rfl) es a
  have hget := congrArg (fun t : Table Unit => (t.get? bone).isSome) hnames
  rw [Table.contains, Table.contains]
  simpa [Table.get?_map] using hget

theorem mapBones_remove_place (p : Pose) (name : String) (time : Scalar) {test : String → Bool}
    (htest : ∀ taken, test (Naming.fresh taken name) = true) (es : List BoneEntry) (a : Armature) :
    ((place p name time es a).armature.mapBones fun _ b => b.removeConstraints test) =
      a.mapBones fun _ b => b.removeConstraints test := by
  have hbones := bones_map_place p name time (fun _ b => b.removeConstraints test)
    (fun _ b e => b.removeConstraints_addConstraint (p.constraintFor name time e)
      (htest b.constraintNames)) es a
  simp [Armature.mapBones, hbones, activeBone_place]

theorem mem_placed {p : Pose} {name : String} {time : Scalar} {es : List BoneEntry} {a : Armature}
    {bone final : String} (h : (bone, final) ∈ (place p name time es a).placed) :
    ∃ taken, final = Naming.fresh taken name := by
  induction es generalizing a with
  | nil => simp [place] at h
  | cons e r ih =>
    cases hb : a.bones.get? e.bone with
    | none => exact ih (by simpa [place, hb] using h)
    | some b =>
      simp only [place, hb, List.mem_cons, Prod.mk.injEq] at h
      rcases h with ⟨-, rfl⟩ | h
      · exact ⟨b.constraintNames, rfl⟩
      · exact ih h

/-- The constraints on one bone among those placed for a pose, given its entries with final names:
each plays the action of the pose at one time of its range, with the weight of the entry. -/
def constraintsOn (p : Pose) (time : Scalar) (bone : String)
    (placed : List (BoneEntry × String)) : List Constraint :=
  (placed.filter fun q => q.1.bone == bone).map fun q =>
    { name := q.2
      enabled := true
      action := p.action
      frameStart := p.startFrame
      frameEnd := p.endFrame
      mix := p.mix
      influence := q.1.influence
      useEvalTime := true
      evalTime := time }

theorem mem_constraintsOn {p : Pose} {time : Scalar} {bone : String}
    {placed : List (BoneEntry × String)} {c : Constraint} :
    c ∈ constraintsOn p time bone placed ↔ ∃ q ∈ placed, q.1.bone = bone ∧
      c = { name := q.2, enabled := true, action := p.action, frameStart := p.startFrame,
            frameEnd := p.endFrame, mix := p.mix, influence := q.1.influence,
            useEvalTime := true, evalTime := time } := by
  simp only [constraintsOn, List.mem_map, List.mem_filter, beq_iff_eq, and_assoc, @eq_comm _ c]

variable {p : Pose} {a : Armature}

/-- What placing entries of a pose gives: the entries whose bone exists, in order, each with
a constraint at the end of its bone under a name that was found for the one asked for and is
new there. -/
structure Spread (p : Pose) (name : String) (time : Scalar) (es : List BoneEntry) (a : Armature)
    (placed : List (BoneEntry × String)) : Prop where
  entries : placed.map Prod.fst = es.filter fun e => a.bones.contains e.bone
  places : (place p name time es a).placed = placed.map fun q => (q.1.bone, q.2)
  bones : (place p name time es a).armature.bones =
    a.bones.map fun n b => b.extend (constraintsOn p time n placed)
  free : ∀ q ∈ placed, ∀ b, a.bones.get? q.1.bone = some b → q.2 ∉ b.constraintNames

theorem constraintsOn_append (p : Pose) (time : Scalar) (n : String)
    (qs rs : List (BoneEntry × String)) :
    constraintsOn p time n (qs ++ rs) = constraintsOn p time n qs ++ constraintsOn p time n rs := by
  simp [constraintsOn]

theorem constraintsOn_singleton (p : Pose) (time : Scalar) (n : String) (q : BoneEntry × String) :
    constraintsOn p time n [q] = if q.1.bone = n then [p.constraintFor q.2 time q.1] else [] := by
  by_cases h : q.1.bone = n <;> simp [constraintsOn, Pose.constraintFor, h]

theorem Spread.armature {name : String} {time : Scalar} {es : List BoneEntry}
    {placed : List (BoneEntry × String)} (h : Spread p name time es a placed) :
    (place p name time es a).armature =
      { a with bones := a.bones.map fun n b => b.extend (constraintsOn p time n placed) } := by
  have hactive := activeBone_place p name time es a
  have hbones := h.bones
  generalize (place p name time es a).armature = after at hactive hbones
  obtain ⟨bones, activeBone⟩ := after
  dsimp only at hactive hbones
  rw [hactive, hbones]

theorem contains_updateBone (a : Armature) (changed n : String) (f : Bone → Bone) :
    (a.updateBone changed f).bones.contains n = a.bones.contains n := by
  simp only [Table.contains, Armature.updateBone, Table.get?_update]
  split <;> simp

theorem Spread.named {name : String} {time : Scalar} {es : List BoneEntry}
    {placed : List (BoneEntry × String)} (h : Spread p name time es a placed)
      {q : BoneEntry × String}
    (hq : q ∈ placed) : ∃ taken, q.2 = Naming.fresh taken name := by
  have hplace : (q.1.bone, q.2) ∈ (place p name time es a).placed := by
    rw [h.places]
    exact List.mem_map.mpr ⟨q, hq, rfl⟩
  exact mem_placed hplace

def missingBone (p : Pose) (e : BoneEntry) : String :=
  "pose '" ++ p.name ++ "': bone '" ++ e.bone ++ "' not found, skipped"

theorem warnings_place (p : Pose) (name : String) (time : Scalar) (es : List BoneEntry)
    (a : Armature) :
    (place p name time es a).report.messages .warning =
      (es.filter fun e => !a.bones.contains e.bone).map (missingBone p) := by
  induction es generalizing a with
  | nil => rfl
  | cons e r ih =>
    cases hb : a.bones.get? e.bone with
    | none =>
      have hmissing : a.bones.contains e.bone = false := by rw [Table.contains, hb]; rfl
      simp only [place, hb, Report.messages_append, ih]
      rw [List.filter_cons_of_pos (by rw [hmissing]; rfl)]
      rfl
    | some b =>
      have hthere : a.bones.contains e.bone = true := by rw [Table.contains, hb]; rfl
      simp only [place, hb, ih, contains_updateBone]
      rw [List.filter_cons_of_neg (by rw [hthere]; decide)]

theorem Spread.cons {name : String} {time : Scalar} {e : BoneEntry} {r : List BoneEntry} {b : Bone}
    {placed : List (BoneEntry × String)} (hb : a.bones.get? e.bone = some b)
    (h : Spread p name time r
      (a.updateBone e.bone fun b => b.addConstraint (p.constraintFor name time e)) placed) :
    Spread p name time (e :: r) a ((e, b.freshName name) :: placed) := by
  constructor
  · have hentries := h.entries
    simp only [contains_updateBone] at hentries
    rw [List.map_cons, hentries, List.filter_cons_of_pos (by simp [Table.contains, hb])]
  · simp [place, hb, h.places]
  · simp only [place, hb]
    rw [h.bones, Armature.updateBone, Table.update, Table.map_map]
    apply Table.map_congr
    intro n b' hn
    rw [← List.singleton_append, constraintsOn_append, constraintsOn_singleton]
    by_cases hbone : e.bone = n
    · subst hbone
      obtain rfl := Option.some.inj (hb.symm.trans hn)
      rw [if_pos rfl, if_pos rfl, Bone.addConstraint_eq, Bone.extend_extend]
      rfl
    · rw [if_neg (Ne.symm hbone), if_neg hbone, List.nil_append]
  · intro q hq b' hb'
    rcases List.mem_cons.mp hq with rfl | hq
    · obtain rfl := Option.some.inj (hb.symm.trans hb')
      exact Naming.fresh_not_mem b.constraintNames name
    · -- what was there before the entry is there after it
      intro hmem
      by_cases hbone : q.1.bone = e.bone
      · rw [hbone] at hb'
        obtain rfl := Option.some.inj (hb.symm.trans hb')
        refine h.free q hq (b.addConstraint (p.constraintFor name time e)) ?_ ?_
        · simp [Armature.updateBone, Table.get?_update, hbone, hb]
        · rw [Bone.addConstraint_eq, Bone.constraintNames_extend]
          exact List.mem_append_left _ hmem
      · exact h.free q hq b' (by simp [Armature.updateBone, Table.get?_update, hbone, hb']) hmem

theorem exists_spread (p : Pose) (name : String) (time : Scalar) (es : List BoneEntry)
    (a : Armature) : ∃ placed, Spread p name time es a placed := by
  induction es generalizing a with
  | nil =>
    refine ⟨[], rfl, rfl, ?_, nofun⟩
    exact (Table.map_eq_self a.bones fun n b _ => b.extend_nil).symm
  | cons e r ih =>
    cases hb : a.bones.get? e.bone with
    | none =>
      obtain ⟨placed, h⟩ := ih a
      refine ⟨placed, ?_, ?_, ?_, h.free⟩
      · rw [h.entries, List.filter_cons_of_neg (by simp [Table.contains, hb])]
      · simp only [place, hb, h.places]
      · simp only [place, hb, h.bones]
    | some b =>
      obtain ⟨placed, h⟩ :=
        ih (a.updateBone e.bone fun b => b.addConstraint (p.constraintFor name time e))
      exact ⟨_, h.cons hb⟩

end Network

end PoseRig
