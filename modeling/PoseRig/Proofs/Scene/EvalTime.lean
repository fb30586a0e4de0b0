import PoseRig.Network.Names
import PoseRig.Proofs.Scene.Carries
import PoseRig.Scene.Evaluate

/-!
# Writing evaluation times

A value written to the evaluation time of a carried constraint changes that constraint and nothing
else. Channels are read from transforms and parents, so no such write can be seen through them.
-/

set_option autoImplicit false

namespace PoseRig

def Bone.bare (b : Bone) : Bone := { b with constraints := [] }

def Object.bare (o : Object) : Object :=
  { o with armature := o.armature.map fun a => a.mapBones fun _ b => b.bare }

def Constraint.setTime (c : Constraint) (x : Scalar) : Constraint := { c with evalTime := x }

namespace Armature

def setTime (a : Armature) (bone name : String) (x : Scalar) : Armature :=
  a.updateBone bone fun b => b.updateConstraint name fun c => c.setTime x

theorem chain_bare (bones : Table Bone) (more : Nat) (name : String) :
    chain (bones.map fun _ b => b.bare) more name = chain bones more name := by
  induction more generalizing name with
  | zero =>
    rw [chain, chain, Table.get?_map]
    cases bones.get? name <;> rfl
  | succ n ih =>
    rw [chain, chain, Table.get?_map]
    cases hb : bones.get? name with
    | none => rfl
    | some b =>
      have hbare : b.bare.parent = b.parent := rfl
      cases hparent : b.parent with
      | none =>
        simp only [Option.map_some, hbare, hparent]
        rfl
      | some parent =>
        simp only [Option.map_some, hbare, hparent, ih]
        rfl

end Armature

namespace Scene

variable {s : Scene} {rig bone name : String} {c : Constraint} {x : Scalar}

def bare (s : Scene) : Scene := { s with objects := s.objects.map fun _ o => o.bare }

theorem object_bare (s : Scene) (name : String) :
    s.bare.object name = (s.object name).map Object.bare := by
  rw [object, object, bare, Table.get?_map]
  cases s.objects.get? name <;> rfl

theorem armature_bare (s : Scene) (name : String) : s.bare.armature name =
    (s.armature name).map fun a => a.mapBones fun _ b => b.bare := by
  rw [armature, armature, object_bare]
  cases s.object name with
  | error e => rfl
  | ok o =>
    obtain ⟨kind, transform, armature, animation, properties⟩ := o
    cases armature <;> rfl

theorem localTransform_bare (s : Scene) (object bone : String) :
    s.bare.localTransform object bone = s.localTransform object bone := by
  rw [localTransform, localTransform]
  by_cases hbone : bone = ""
  · rw [if_pos hbone, if_pos hbone, object_bare]
    cases s.object object <;> rfl
  · rw [if_neg hbone, if_neg hbone, Scene.bone, Scene.bone, armature_bare]
    cases s.armature object with
    | error e => rfl
    | ok a =>
      simp only [Except.map, Armature.mapBones, Table.get?_map]
      cases a.bones.get? bone <;> rfl

theorem worldPlacement_bare (s : Scene) (object bone : String) :
    s.bare.worldPlacement object bone = s.worldPlacement object bone := by
  rw [worldPlacement, worldPlacement, object_bare, armature_bare]
  cases s.object object with
  | error e => rfl
  | ok o =>
    cases s.armature object with
    | error e => rfl
    | ok a =>
      have hsize : (a.bones.map fun _ b => b.bare).size = a.bones.size := by
        simp [Table.size, Table.map]
      simp only [Except.map, Armature.mapBones, Armature.chain_bare, hsize]
      rfl

theorem channelValue_bare (s : Scene) (object bone : String) (channel : Channel) (space : Space)
    (reading : RotationReading) :
    s.bare.channelValue object bone channel space reading =
      s.channelValue object bone channel space reading := by
  rw [channelValue, channelValue, sampled, sampled, localTransform_bare, worldPlacement_bare]

def setTime (s : Scene) (rig bone name : String) (x : Scalar) : Scene :=
  s.updateArmature rig fun a => a.setTime bone name x

theorem bare_setTime (s : Scene) (rig bone name : String) (x : Scalar) :
    (s.setTime rig bone name x).bare = s.bare := by
  have harmature : ∀ a : Armature,
      ((a.setTime bone name x).mapBones fun _ b => b.bare) = a.mapBones fun _ b => b.bare := by
    intro a
    have hbones := Table.map_update a.bones bone
      (fun b => b.updateConstraint name fun c => c.setTime x) (fun _ b => b.bare) (fun b _ => rfl)
    rw [Armature.mapBones, Armature.setTime, Armature.updateBone, hbones]
    rfl
  have hobjects := Table.map_update s.objects rig
    (fun o => { o with armature := o.armature.map fun a => a.setTime bone name x })
      (fun _ o => o.bare)
    (fun o _ => by simp only [Object.bare, Option.map_map, Function.comp_def, harmature])
  rw [bare, setTime, updateArmature, updateObject, hobjects]
  rfl

def Carries (s : Scene) (rig bone name : String) (c : Constraint) : Prop :=
  ∃ a, s.armature rig = .ok a ∧ a.Carries bone name c

theorem armature_setTime {a : Armature} (h : s.armature rig = .ok a) (bone name : String)
    (x : Scalar) : (s.setTime rig bone name x).armature rig = .ok (a.setTime bone name x) := by
  obtain ⟨o, ho, ha⟩ := object_of_armature h
  rw [setTime, updateArmature, updateObject_eq ho]
  apply armature_of_object (object_setObject _ _ _)
  simp [ha]

theorem Carries.setTime_self (h : s.Carries rig bone name c) (x : Scalar) :
    (s.setTime rig bone name x).Carries rig bone name (c.setTime x) := by
  obtain ⟨a, ha, hc⟩ := h
  exists a.setTime bone name x
  constructor
  · exact armature_setTime ha bone name x
  · apply hc.updateBone_self
    intro b hb
    exact hb.updateConstraint_self fun _ => rfl

theorem Carries.setTime (h : s.Carries rig bone name c) {bone' name' : String}
    (hne : Path.evalTime bone' name' ≠ Path.evalTime bone name) (x : Scalar) :
    (s.setTime rig bone' name' x).Carries rig bone name c := by
  obtain ⟨a, ha, hc⟩ := h
  exists a.setTime bone' name' x
  constructor
  · exact armature_setTime ha bone' name' x
  · apply hc.updateBone
    intro hbone b hb
    have hname : name' ≠ name := by
      intro hname
      apply hne
      rw [hbone, hname]
    exact hb.updateConstraint (fun _ => rfl) hname

theorem writeProperty_evalTime (h : s.Carries rig bone name c) (x : Scalar) :
    s.writeProperty rig (Path.evalTime bone name) x = .ok (s.setTime rig bone name x) := by
  obtain ⟨a, ha, b, hb, hc⟩ := h
  obtain ⟨o, ho, hoa⟩ := object_of_armature ha
  have hfirst : b.updateConstraint name (fun _ => c.setTime x) =
      b.updateConstraint name fun c => c.setTime x :=
    congrArg (fun cs => { b with constraints := cs })
      (Bone.updateFirst_const (f := fun c => c.setTime x) hc.constraint?)
  have hwrite : b.write? [.field "constraints", .key name, .field "eval_time"] x =
      some (b.updateConstraint name fun c => c.setTime x) := by
    rw [← hfirst]
    simp [Bone.write?, hc.constraint?, Constraint.set?, Constraint.setTime]
  have hbones : (a.updateBone bone fun _ => b.updateConstraint name fun c => c.setTime x) =
      a.setTime bone name x := by
    rw [Armature.updateBone, Armature.setTime, Armature.updateBone]
    congr 1
    apply Table.update_congr
    intro b' hb'
    rw [Option.some.inj (hb'.symm.trans hb)]
  have hobject : o.write rig (Path.evalTime bone name) x =
      .ok { o with armature := some (a.setTime bone name x) } := by
    simp [Object.write, Path.evalTime, Path.ofConstraint, hoa, hb, hwrite, hbones]
  rw [writeProperty, ho]
  dsimp only
  rw [hobject, setTime, updateArmature, updateObject_eq ho]
  simp [hoa]

theorem writeProperty_influence (s : Scene) (rig pose : String) (x : Scalar) :
    ∃ e, s.writeProperty rig (Path.influence pose) x = .error e := by
  unfold writeProperty
  cases s.object rig with
  | error e => exact ⟨e, rfl⟩
  | ok o => exact ⟨_, rfl⟩

end Scene

end PoseRig
