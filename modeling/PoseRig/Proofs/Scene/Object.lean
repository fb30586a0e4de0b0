import PoseRig.Proofs.Table
import PoseRig.Scene.Basic

/-!
# Looking up and replacing objects

A change of an object that exists is the replacement of that object, and of two replacements in a
row the second counts. So a chain of changes to one object is a single replacement.
-/

set_option autoImplicit false

namespace PoseRig

namespace Scene

variable {s : Scene} {name : String} {o : Object} {a : Armature}

theorem object_eq_ok : s.object name = .ok o ↔ s.objects.get? name = some o := by
  unfold object
  cases s.objects.get? name <;> simp

theorem armature_of_object (h : s.object name = .ok o) (ha : o.armature = some a) :
    s.armature name = .ok a := by
  simp [armature, h, ha]

theorem object_of_armature (h : s.armature name = .ok a) :
    ∃ o, s.object name = .ok o ∧ o.armature = some a := by
  unfold armature at h
  cases ho : s.object name with
  | error e => simp [ho] at h
  | ok o =>
    cases ha : o.armature with
    | none => simp [ho, ha] at h
    | some b => exact ⟨o, rfl, by simpa [ho, ha] using h⟩

@[simp] theorem object_setObject (s : Scene) (name : String) (o : Object) :
    (s.setObject name o).object name = .ok o :=
  object_eq_ok.mpr (by simp [setObject, Table.get?_insert])

@[simp] theorem setObject_setObject (s : Scene) (name : String) (o p : Object) :
    (s.setObject name o).setObject name p = s.setObject name p := by
  simp [setObject]

theorem setObject_self (h : s.object name = .ok o) : s.setObject name o = s := by
  simp [setObject, Table.insert_self (object_eq_ok.mp h)]

theorem updateObject_eq (h : s.object name = .ok o) (f : Object → Object) :
    s.updateObject name f = s.setObject name (f o) := by
  simp [updateObject, setObject, Table.update_eq_insert f (object_eq_ok.mp h)]

@[simp] theorem updateObject_setObject (s : Scene) (name : String) (o : Object)
    (f : Object → Object) : (s.setObject name o).updateObject name f = s.setObject name (f o) := by
  rw [updateObject_eq (object_setObject s name o), setObject_setObject]

theorem armature_updateArmature (h : s.armature name = .ok a) (f : Armature → Armature) :
    (s.updateArmature name f).armature name = .ok (f a) := by
  obtain ⟨o, ho, ha⟩ := object_of_armature h
  rw [updateArmature, updateObject_eq ho]
  exact armature_of_object (object_setObject s name _) (by rw [ha]; rfl)

theorem updateArmature_eq (h : s.object name = .ok o) (ha : o.armature = some a)
    (f : Armature → Armature) :
    s.updateArmature name f = s.setObject name { o with armature := some (f a) } := by
  rw [updateArmature, updateObject_eq h, ha]
  rfl

theorem updateArmature_self (h : s.armature name = .ok a) :
    (s.updateArmature name fun _ => a) = s := by
  obtain ⟨o, ho, ha⟩ := object_of_armature h
  rw [updateArmature_eq ho ha, ← ha]
  exact setObject_self ho

theorem updateArmature_const (h : s.armature name = .ok a) (f : Armature → Armature)
    (b : Armature) :
    ((s.updateArmature name f).updateArmature name fun _ => b) =
      s.updateArmature name fun _ => b := by
  obtain ⟨o, ho, ha⟩ := object_of_armature h
  rw [updateArmature_eq ho ha, updateArmature_eq (object_setObject s name _) rfl,
    updateArmature_eq ho ha, setObject_setObject]

theorem armature_congr {t : Scene} (h : t.objects = s.objects) (name : String) :
    t.armature name = s.armature name := by
  simp only [armature, object, h]

end Scene

theorem Armature.get?_updateBone_self {a : Armature} {bone : String} {b : Bone}
    (hb : a.bones.get? bone = some b) {f : Bone → Bone} :
    (a.updateBone bone f).bones.get? bone = some (f b) := by
  rw [updateBone, Table.get?_update, if_pos rfl, hb, Option.map_some]

end PoseRig
