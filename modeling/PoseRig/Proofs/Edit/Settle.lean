import PoseRig.Edit.Action
import PoseRig.Proofs.Network.Place
import PoseRig.Proofs.Scene.Assign

/-!
# What leaving action edit does to the rig

Leaving is one change of the rig object, bone by bone. It does not see anything that entering or
posing does to a rig: neither the rest transforms, nor the constraints that are off or temporary,
nor a new selection. On a rig that is settled already it changes nothing.
-/

set_option autoImplicit false

namespace PoseRig

variable (prefs : Preferences) (taken : Snapshot)

namespace Bone

def settle (name : String) (b : Bone) : Bone :=
  ({ b with
      select := decide (name ∈ taken.selectedBones)
      transform := (taken.transforms.get? name).getD b.transform.reset }.removeConstraints
    prefs.isTemp).setEnabled prefs true

theorem settle_transform {name : String} (h : (taken.transforms.get? name).isSome) (b : Bone)
    (t : Transform) :
    settle prefs taken name { b with transform := t } = settle prefs taken name b := by
  obtain ⟨former, hf⟩ := Option.isSome_iff_exists.mp h
  simp [settle, hf]

theorem settle_select (name : String) (b : Bone) (v : Bool) :
    settle prefs taken name { b with select := v } = settle prefs taken name b := rfl

theorem settle_setEnabled (name : String) (b : Bone) (v : Bool) :
    settle prefs taken name (b.setEnabled prefs v) = settle prefs taken name b := by
  simp only [settle, setEnabled, removeConstraints, Bone.mk.injEq, true_and, and_true]
  induction b.constraints with
  | nil => rfl
  | cons c r ih =>
    by_cases hc : prefs.isCompiled c.name <;> by_cases ht : prefs.isTemp c.name <;>
      simp [hc, ht, ih]

theorem settle_addConstraint {name : String} (b : Bone) {c : Constraint}
    (h : prefs.isTemp (b.freshName c.name) = true) :
    settle prefs taken name (b.addConstraint c) = settle prefs taken name b := by
  simp [settle, addConstraint, removeConstraints, h]

end Bone

namespace Armature

def settle (a : Armature) : Armature where
  bones := a.bones.map (Bone.settle prefs taken)
  activeBone := taken.activeBone.filter a.bones.contains

theorem settle_congr {a b : Armature}
    (h : a.bones.map (Bone.settle prefs taken) = b.bones.map (Bone.settle prefs taken)) :
    settle prefs taken a = settle prefs taken b := by
  have hnames : a.bones.names = b.bones.names := by
    simpa using congrArg Table.names h
  have hcontains : a.bones.contains = b.bones.contains := by
    funext n
    rw [Bool.eq_iff_iff, Table.contains_iff, Table.contains_iff, hnames]
  rw [settle, settle, h, hcontains]

theorem settle_updateBone (a : Armature) (name : String) (f : Bone → Bone)
    (hf : ∀ b, a.bones.get? name = some b →
      Bone.settle prefs taken name (f b) = Bone.settle prefs taken name b) :
    settle prefs taken (a.updateBone name f) = settle prefs taken a :=
  settle_congr prefs taken (Table.map_update a.bones name f _ hf)

theorem settle_mapBones (a : Armature) (f : String → Bone → Bone)
    (hf : ∀ n b, a.bones.get? n = some b →
      Bone.settle prefs taken n (f n b) = Bone.settle prefs taken n b) :
    settle prefs taken (a.mapBones f) = settle prefs taken a := by
  apply settle_congr
  rw [mapBones, Table.map_map]
  exact Table.map_congr a.bones hf

theorem settle_place (hdot : '.' ∉ prefs.tempMarker.toList) (p : Pose) (a : Armature) :
    settle prefs taken (Network.place p (prefs.tempConstraintName p.name) 1 p.bones a).armature =
      settle prefs taken a := by
  apply settle_congr
  exact Network.bones_map_place p (prefs.tempConstraintName p.name) 1 (Bone.settle prefs taken)
    (fun _ b _ => Bone.settle_addConstraint prefs taken b
      (Preferences.isTemp_fresh hdot b.constraintNames p.name)) p.bones a

theorem settle_placeTemp (hdot : '.' ∉ prefs.tempMarker.toList) (ps : List Pose) (a : Armature) :
    settle prefs taken (Edit.placeTemp prefs ps a).2 = settle prefs taken a := by
  induction ps generalizing a with
  | nil => rfl
  | cons p r ih =>
    rw [Edit.placeTemp, ih]
    exact settle_place prefs taken hdot p a

end Armature

namespace Object

def settle (o : Object) : Object :=
  { o with
    animation := some ({ o.animationOrNew with action := taken.activeAction }.removeWhere
      fun p => p.constraint?.any prefs.isTemp)
    armature := o.armature.map (Armature.settle prefs taken) }

/-- Leaving works in four steps: the action, the snapshot, the temporary things and the network. -/
theorem restore_eq_settle (o : Object) :
    { ({ o.setActiveAction taken.activeAction with
        armature := o.armature.map (Armature.restore taken) } : Object).removeTemp prefs with
      armature := ((o.armature.map (Armature.restore taken)).map fun a =>
        a.mapBones fun _ b => b.removeConstraints prefs.isTemp).map fun a =>
          a.mapBones fun _ b => b.setEnabled prefs true } = settle prefs taken o := by
  cases ha : o.armature with
  | none => simp [settle, ha, Object.setActiveAction, Object.removeTemp]
  | some a =>
    have hbones : ((a.restore taken).mapBones fun _ b => b.removeConstraints prefs.isTemp).mapBones
        (fun _ b => b.setEnabled prefs true) = Armature.settle prefs taken a := by
      simp only [Armature.restore, Armature.mapBones, Armature.settle, Table.map_map]
      rfl
    rw [Option.map_some, Option.map_some, Option.map_some, hbones, settle, ha]
    rfl

theorem settle_armature (o : Object) {f : Armature → Armature}
    (hf : ∀ a, o.armature = some a →
      Armature.settle prefs taken (f a) = Armature.settle prefs taken a) :
    settle prefs taken { o with armature := o.armature.map f } = settle prefs taken o := by
  cases ha : o.armature with
  | none => simp [settle, animationOrNew, ha]
  | some a => simp [settle, animationOrNew, ha, hf a ha]

end Object

namespace Edit

variable {prefs}

/-- A rig that action edit can be left for as it was: what is compiled on it is on, nothing on it is
temporary, and its active bone and action can be set again. -/
structure Settled (prefs : Preferences) (actions : Table Action) (o : Object) (a : Armature)
    (d : Animation) : Prop where
  armature : o.armature = some a
  animation : o.animation = some d
  action : Assignable o.kind actions d.action
  activeBone : ∀ name, a.activeBone = some name → a.bones.contains name = true
  enabled : ∀ n b, a.bones.get? n = some b →
    ∀ c ∈ b.constraints, prefs.isCompiled c.name = true → c.enabled = true
  unmarked : ∀ n b, a.bones.get? n = some b → ∀ c ∈ b.constraints, prefs.isTemp c.name = false
  undriven : ∀ e ∈ d.drivers, ∀ name, e.dataPath.constraint? = some name → prefs.isTemp name = false

variable {s : Scene} {o : Object} {a : Armature} {d : Animation}

theorem mem_selected {a : Armature} {n : String} {b : Bone} (h : a.bones.get? n = some b) :
    n ∈ a.selected ↔ b.select = true := by
  constructor
  · intro hm
    obtain ⟨⟨n', b'⟩, hmem, rfl⟩ := List.mem_map.mp hm
    obtain ⟨hentry, hsel⟩ := List.mem_filter.mp hmem
    have hb' := (a.bones.mem_entries n' b').mp hentry
    obtain rfl := Option.some.inj (h.symm.trans hb')
    exact hsel
  · intro hs
    exact List.mem_map.mpr ⟨(n, b), List.mem_filter.mpr ⟨(a.bones.mem_entries n b).mpr h, hs⟩, rfl⟩

theorem settle_bone (hs : Settled prefs s.actions o a d) (pose : String) {n : String} {b : Bone}
    (h : a.bones.get? n = some b) : Bone.settle prefs (snapshot s o a pose) n b = b := by
  have hselect : decide (n ∈ (snapshot s o a pose).selectedBones) = b.select := by
    rw [Bool.eq_iff_iff, decide_eq_true_iff]
    exact mem_selected h
  have htransform : ((snapshot s o a pose).transforms.get? n).getD b.transform.reset =
      b.transform := by
    simp [snapshot, Table.get?_map, h]
  have hkept : b.constraints.filter (fun c => !prefs.isTemp c.name) = b.constraints :=
    List.filter_eq_self.mpr fun c hc => by simp [hs.unmarked n b h c hc]
  have hon : (b.constraints.map fun c =>
      if prefs.isCompiled c.name then { c with enabled := true } else c) = b.constraints := by
    apply (List.map_congr_left _).trans (List.map_id' _)
    intro c hc
    by_cases hcomp : prefs.isCompiled c.name = true
    · have henabled := hs.enabled n b h c hc hcomp
      rw [if_pos hcomp, ← henabled]
    · rw [if_neg hcomp]
  rw [Bone.settle, hselect, htransform]
  simp only [Bone.setEnabled, Bone.removeConstraints, hkept, hon]

theorem settle_self (hs : Settled prefs s.actions o a d) (pose : String) :
    Object.settle prefs (snapshot s o a pose) o = o := by
  have harmature : Armature.settle prefs (snapshot s o a pose) a = a := by
    have hbones : a.bones.map (Bone.settle prefs (snapshot s o a pose)) = a.bones :=
      Table.map_eq_self a.bones fun n b h => settle_bone hs pose h
    have hactive : a.activeBone.filter a.bones.contains = a.activeBone := by
      cases hb : a.activeBone with
      | none => rfl
      | some n => simp [hs.activeBone n hb]
    rw [Armature.settle, hbones]
    simp only [snapshot, hactive]
  have hdrivers : d.drivers.filter (fun e => !(e.dataPath.constraint?.any prefs.isTemp)) =
      d.drivers := by
    rw [List.filter_eq_self]
    intro e he
    cases hc : e.dataPath.constraint? with
    | none => rfl
    | some name => simp [hs.undriven e he name hc]
  have hdata : ({ o.animationOrNew with action := (snapshot s o a pose).activeAction } : Animation)
      = d := by
    simp [Object.animationOrNew, Object.activeAction, snapshot, hs.animation]
  rw [Object.settle, hdata, hs.armature, Option.map_some, harmature,
    Animation.removeWhere, hdrivers, ← hs.animation, ← hs.armature]

end Edit

end PoseRig
