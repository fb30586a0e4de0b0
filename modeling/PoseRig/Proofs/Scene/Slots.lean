import Mathlib.Tactic.SplitIfs
import PoseRig.Proofs.Scene.Object
import PoseRig.Proofs.Scene.Write

/-!
# What drivers leave as it was

A write sets one slot of an object: a custom property, a component of a transform, or a part of a
constraint. The slot is the one that the path leads to; every other slot, and all of the object that
is no slot, stays as it was. So when drivers have run, a slot that has changed is one that an
applied driver is bound to.
-/

set_option autoImplicit false

namespace PoseRig

variable {x : Scalar}

namespace Transform

variable {t t' : Transform} {part part' : String} {i i' : Nat}

def component? (t : Transform) (part : String) (i : Nat) : Option Value :=
  if part = "location" then (Value.vec3 t.location).component? i
  else if part = "rotation_euler" then (Value.vec3 t.rotationEuler).component? i
  else if part = "rotation_quaternion" then (Value.quat t.rotationQuaternion).component? i
  else if part = "scale" then (Value.vec3 t.scale).component? i
  else none

theorem component?_setTriple?_other {v v' : Vec} (h : setTriple? v i x = some v') (hne : i' ≠ i) :
    (Value.vec3 v').component? i' = (Value.vec3 v).component? i' := by
  obtain ⟨axis, haxis, rfl⟩ := Option.map_eq_some_iff.mp h
  unfold Axis.ofIndex? at haxis
  split at haxis <;> cases haxis <;> rcases i' with _ | _ | _ | i' <;>
    first | rfl | exact absurd rfl hne

theorem component?_setQuat?_other {q q' : Quat} (h : setQuat? q i x = some q') (hne : i' ≠ i) :
    (Value.quat q').component? i' = (Value.quat q).component? i' := by
  unfold setQuat? at h
  split at h <;> cases h <;> rcases i' with _ | _ | _ | _ | i' <;>
    first | rfl | exact absurd rfl hne

theorem reset_setComponent? (h : t.setComponent? part i x = some t') : t'.reset = t.reset := by
  unfold setComponent? at h
  split_ifs at h <;> (obtain ⟨v, -, rfl⟩ := Option.map_eq_some_iff.mp h; rfl)

theorem component?_setComponent?_other (h : t.setComponent? part i x = some t')
    (hne : part' = part → i' ≠ i) : t'.component? part' i' = t.component? part' i' := by
  unfold setComponent? at h
  split_ifs at h with hpart hpart hpart hpart
  · obtain ⟨v, hv, rfl⟩ := Option.map_eq_some_iff.mp h
    rw [hpart] at hne
    by_cases hpart' : part' = "location"
    · simpa [component?, hpart'] using component?_setTriple?_other hv (hne hpart')
    · simp [component?, hpart']
  · obtain ⟨v, hv, rfl⟩ := Option.map_eq_some_iff.mp h
    rw [hpart] at hne
    by_cases hpart' : part' = "rotation_euler"
    · simpa [component?, hpart'] using component?_setTriple?_other hv (hne hpart')
    · simp [component?, hpart']
  · obtain ⟨q, hq, rfl⟩ := Option.map_eq_some_iff.mp h
    rw [hpart] at hne
    by_cases hpart' : part' = "rotation_quaternion"
    · simpa [component?, hpart'] using component?_setQuat?_other hq (hne hpart')
    · simp [component?, hpart']
  · obtain ⟨v, hv, rfl⟩ := Option.map_eq_some_iff.mp h
    rw [hpart] at hne
    by_cases hpart' : part' = "scale"
    · simpa [component?, hpart'] using component?_setTriple?_other hv (hne hpart')
    · simp [component?, hpart']

end Transform

namespace Constraint

variable {c c' : Constraint} {part part' : String}

def fixed (c : Constraint) : Constraint := { c with influence := 1, evalTime := 0 }

def part? (c : Constraint) (part : String) : Option Value :=
  if part = "eval_time" then some (.float c.evalTime)
  else if part = "influence" then some (.float c.influence)
  else none

theorem fixed_set? (h : c.set? part x = some c') : c'.fixed = c.fixed := by
  obtain ⟨-, rfl⟩ | ⟨-, rfl⟩ := set?_cases h
  · rfl
  · rfl

theorem part?_set?_other (h : c.set? part x = some c') (hne : part' ≠ part) :
    c'.part? part' = c.part? part' := by
  obtain ⟨rfl, rfl⟩ | ⟨rfl, rfl⟩ := set?_cases h
  · rw [part?, part?, if_neg hne, if_neg hne]
  · rw [part?, part?, if_neg hne, if_neg hne]

end Constraint

namespace Bone

variable {b b' : Bone} {selectors : List Selector}

/-- What a write can set of a bone: a custom property, a component of the transform, or a part of
the constraint at a position. -/
inductive Slot where
  | property (key : String)
  | component (part : String) (i : Nat)
  | constraint (position : Nat) (part : String)

def fixed (b : Bone) : Bone :=
  { b with
    transform := b.transform.reset
    constraints := b.constraints.map (·.fixed)
    properties := .empty }

def position? (b : Bone) (name : String) : Option Nat :=
  b.constraints.findIdx? fun c => c.name == name

namespace Slot

def value? (b : Bone) : Slot → Option Value
  | .property key => b.properties.get? key
  | .component part i => b.transform.component? part i
  | .constraint position part => b.constraints[position]?.bind fun c => c.part? part

/-- The selectors that lead to a slot from the bone. There are none to a constraint that stands
after another one of its name. -/
def selectors? (b : Bone) : Slot → Option (List Selector)
  | .property key => some [.key key]
  | .component part i => some [.field part, .index i]
  | .constraint position part =>
    (b.constraintNames[position]?.filter fun name => b.position? name = some position).map
      fun name =>
      [.field "constraints", .key name, .field part]

end Slot

theorem constraintNames_fixed (b : Bone) : b.fixed.constraintNames = b.constraintNames := by
  simp only [constraintNames, fixed, List.map_map]
  rfl

theorem position?_eq (b : Bone) (name : String) :
    b.position? name = b.constraintNames.findIdx? (fun n => n == name) := by
  rw [constraintNames, List.findIdx?_map]
  rfl

theorem Slot.selectors?_fixed (b : Bone) (slot : Slot) :
    slot.selectors? b.fixed = slot.selectors? b := by
  cases slot with
  | property key => rfl
  | component part i => rfl
  | constraint position part => simp only [selectors?, position?_eq, constraintNames_fixed]

theorem getElem?_updateFirst (name : String) (f : Constraint → Constraint) (cs : List Constraint)
    (i : Nat) :
    (updateFirst name f cs)[i]? =
      if cs.findIdx? (fun c => c.name == name) = some i then cs[i]?.map f else cs[i]? := by
  induction cs generalizing i with
  | nil => rfl
  | cons c r ih =>
    by_cases hname : c.name = name
    · cases i <;> simp [updateFirst, List.findIdx?_cons, hname]
    · cases i <;> simp [updateFirst, List.findIdx?_cons, hname, ih]

theorem fixed_updateConstraint {name : String} {c c' : Constraint}
    (hc : b.constraint? name = some c) (hfixed : c'.fixed = c.fixed) :
    (b.updateConstraint name fun _ => c').fixed = b.fixed := by
  have hconstraints : (updateFirst name (fun _ => c') b.constraints).map (·.fixed) =
      b.constraints.map (·.fixed) := by
    rw [constraint?, List.find?_eq_bind_findIdx?_getElem?] at hc
    apply List.ext_getElem?
    intro i
    rw [List.getElem?_map, List.getElem?_map, getElem?_updateFirst]
    split
    · rename_i hi
      rw [hi, Option.bind_some] at hc
      rw [hc, Option.map_some, Option.map_some, Option.map_some, hfixed]
    · rfl
  simp only [fixed, updateConstraint, hconstraints]

theorem fixed_write? (h : b.write? selectors x = some b') : b'.fixed = b.fixed := by
  obtain ⟨key, -, rfl⟩ | ⟨name, part, c, c', -, hc, hset, rfl⟩ | ⟨part, i, t, -, ht, rfl⟩ :=
    write?_cases h
  · rfl
  · exact fixed_updateConstraint hc (Constraint.fixed_set? hset)
  · simp only [fixed, Transform.reset_setComponent? ht]

theorem Slot.value?_write?_other (h : b.write? selectors x = some b') {slot : Slot}
    (hne : slot.selectors? b ≠ some selectors) : slot.value? b' = slot.value? b := by
  obtain ⟨key, rfl, rfl⟩ | ⟨name, part, c, c', rfl, hc, hset, rfl⟩ | ⟨part, i, t, rfl, ht, rfl⟩ :=
    write?_cases h
  · cases slot with
    | property key' =>
      have hkey : key' ≠ key := by
        rintro rfl
        exact hne rfl
      simp only [value?, Table.get?_insert, if_neg hkey]
    | component part i => rfl
    | constraint position part => rfl
  · cases slot with
    | property key => rfl
    | component part' i => rfl
    | constraint position part' =>
      have hname : c.name = name := by simpa using List.find?_some hc
      -- the write goes to the first constraint of the name, so the one at another position keeps
      -- its parts
      simp only [value?, updateConstraint, getElem?_updateFirst]
      split
      · rename_i hposition
        rw [constraint?, List.find?_eq_bind_findIdx?_getElem?, hposition, Option.bind_some] at hc
        have hpart : part' ≠ part := by
          rintro rfl
          apply hne
          simp [selectors?, constraintNames, position?, hc, hname, hposition]
        rw [hc, Option.map_some, Option.bind_some, Option.bind_some,
          Constraint.part?_set?_other hset hpart]
      · rfl
  · cases slot with
    | property key => rfl
    | component part' i' =>
      apply Transform.component?_setComponent?_other ht
      rintro rfl rfl
      exact hne rfl
    | constraint position part => rfl

end Bone

namespace Object

variable {o o' o'' : Object} {path : Path} {written more : List Path}

/-- What a write can set of an object: a custom property, a component of the transform, or a slot
of a bone. -/
inductive Slot where
  | property (key : String)
  | component (part : String) (i : Nat)
  | bone (name : String) (slot : Bone.Slot)

def fixed (o : Object) : Object :=
  { o with
    transform := o.transform.reset
    armature := o.armature.map fun a => a.mapBones fun _ b => b.fixed
    properties := .empty }

def bone? (o : Object) (name : String) : Option Bone := o.armature.bind fun a => a.bones.get? name

namespace Slot

def value? (o : Object) : Slot → Option Value
  | .property key => o.properties.get? key
  | .component part i => o.transform.component? part i
  | .bone name slot => (o.bone? name).bind fun b => slot.value? b

def path? (o : Object) : Slot → Option Path
  | .property key => some ⟨[.key key]⟩
  | .component part i => some ⟨[.field part, .index i]⟩
  | .bone name slot =>
    ((o.bone? name).bind fun b => slot.selectors? b).map fun rest =>
      ⟨.field "pose" :: .field "bones" :: .key name :: rest⟩

end Slot

theorem bone?_fixed (o : Object) (name : String) :
    o.fixed.bone? name = (o.bone? name).map Bone.fixed := by
  unfold bone? fixed
  cases o.armature with
  | none => rfl
  | some a => exact Table.get?_map a.bones (fun _ b => b.fixed) name

theorem Slot.path?_fixed (o : Object) (slot : Slot) : slot.path? o.fixed = slot.path? o := by
  cases slot with
  | property key => rfl
  | component part i => rfl
  | bone name slot =>
    simp only [path?, bone?_fixed, Option.bind_map, Function.comp_def, Bone.Slot.selectors?_fixed]

theorem Slot.path?_congr (h : o'.fixed = o.fixed) (slot : Slot) : slot.path? o' = slot.path? o := by
  rw [← path?_fixed o', h, path?_fixed]

theorem bone?_updateBone {a : Armature} {bone : String} {b b' : Bone} (ha : o.armature = some a)
    (hb : a.bones.get? bone = some b) (name : String) :
    ({ o with armature := some (a.updateBone bone fun _ => b') } : Object).bone? name =
      if name = bone then some b' else o.bone? name := by
  simp only [bone?, ha, Option.bind_some, Armature.updateBone, Table.get?_update]
  split_ifs with hname
  · rw [hname, hb, Option.map_some]
  · rfl

theorem fixed_write {called : String} (h : o.write called path x = .ok o') :
    o'.fixed = o.fixed := by
  obtain ⟨key, -, rfl⟩ | ⟨part, i, t, -, ht, rfl⟩ | ⟨bone, rest, a, b, b', -, ha, hb, hw, rfl⟩ :=
    write_cases h
  · rfl
  · simp only [fixed, Transform.reset_setComponent? ht]
  · have hbones : ((a.updateBone bone fun _ => b').mapBones fun _ b => b.fixed) =
        a.mapBones fun _ b => b.fixed := by
      refine congrArg (fun bones => { a with bones := bones })
        (Table.map_update a.bones bone (fun _ => b') (fun _ b => b.fixed) ?_)
      intro b₁ hb₁
      rw [Bone.fixed_write? hw, Option.some.inj (hb.symm.trans hb₁)]
    simp only [fixed, ha, Option.map_some, hbones]

theorem Slot.value?_write_other {called : String} (h : o.write called path x = .ok o') {slot : Slot}
    (hne : slot.path? o ≠ some path) : slot.value? o' = slot.value? o := by
  obtain ⟨selectors⟩ := path
  obtain ⟨key, rfl, rfl⟩ | ⟨part, i, t, rfl, ht, rfl⟩ | ⟨bone, rest, a, b, b', rfl, ha, hb, hw,
    rfl⟩ := write_cases h
  · cases slot with
    | property key' =>
      have hkey : key' ≠ key := by
        rintro rfl
        exact hne rfl
      simp only [value?, setProperty, Table.get?_insert, if_neg hkey]
    | component part i => rfl
    | bone name slot => rfl
  · cases slot with
    | property key => rfl
    | component part' i' =>
      apply Transform.component?_setComponent?_other ht
      rintro rfl rfl
      exact hne rfl
    | bone name slot => rfl
  · cases slot with
    | property key => rfl
    | component part i => rfl
    | bone name slot =>
      simp only [value?, bone?_updateBone ha hb]
      split_ifs with hname
      · subst hname
        have hbone : o.bone? name = some b := by rw [bone?, ha, Option.bind_some, hb]
        rw [hbone, Option.bind_some, Option.bind_some]
        apply Bone.Slot.value?_write?_other hw
        intro hselectors
        apply hne
        rw [path?, hbone, Option.bind_some, hselectors, Option.map_some]
      · rfl

/-- An object and what became of it by writes at these paths: nothing has changed but slots that one
of the paths leads to. -/
structure Frame (written : List Path) (o o' : Object) : Prop where
  fixed : o'.fixed = o.fixed
  slots : ∀ slot : Slot, slot.value? o' ≠ slot.value? o → ∃ path ∈ written, slot.path? o = some path

namespace Frame

theorem refl (o : Object) : Frame [] o o where
  fixed := rfl
  slots _ hne := absurd rfl hne

theorem trans (h : Frame written o o') (h' : Frame more o' o'') :
    Frame (written ++ more) o o'' where
  fixed := h'.fixed.trans h.fixed
  slots := by
    intro slot hne
    by_cases hfirst : slot.value? o' = slot.value? o
    · rw [← hfirst] at hne
      obtain ⟨path, hpath, hslot⟩ := h'.slots slot hne
      rw [slot.path?_congr h.fixed] at hslot
      exact ⟨path, List.mem_append_right _ hpath, hslot⟩
    · obtain ⟨path, hpath, hslot⟩ := h.slots slot hfirst
      exact ⟨path, List.mem_append_left _ hpath, hslot⟩

theorem of_write {called : String} (h : o.write called path x = .ok o') : Frame [path] o o' where
  fixed := fixed_write h
  slots := by
    intro slot hne
    refine ⟨path, List.mem_singleton_self path, ?_⟩
    exact Decidable.not_not.mp fun hslot => hne (Slot.value?_write_other h hslot)

end Frame

end Object

namespace Scene

variable {s : Scene} {rig : String} {o : Object}

def applied (outputs : List DriverOutput) : List Path :=
  (outputs.filter fun output => output.applied).map (·.dataPath)

theorem applied_cons (output : DriverOutput) (r : List DriverOutput) :
    applied (output :: r) = applied [output] ++ applied r := by
  rw [applied, applied, applied, ← List.map_append, ← List.filter_append, List.singleton_append]

theorem frame_runDriver (ho : s.object rig = .ok o) (d : Driver) :
    ∃ o', (runDriver rig s d).2 = s.setObject rig o' ∧
      o.Frame (applied [(runDriver rig s d).1]) o' := by
  obtain ⟨e, -, hd⟩ | ⟨x, e, -, -, hd⟩ | ⟨x, s', -, hw, hd⟩ := runDriver_outcome rig s d
  · rw [hd]
    exact ⟨o, (setObject_self ho).symm, .refl o⟩
  · rw [hd]
    exact ⟨o, (setObject_self ho).symm, .refl o⟩
  · rw [hd]
    obtain ⟨o₁, o', ho₁, hwrite, rfl⟩ := writeProperty_cases hw
    obtain rfl := Except.ok.inj (ho.symm.trans ho₁)
    exact ⟨o', rfl, .of_write hwrite⟩

/-- A run of drivers changes the one object only, and of it only slots that an applied driver
is bound to. -/
theorem frame_runDrivers (ho : s.object rig = .ok o) (ds : List Driver) :
    ∃ o', (runDrivers rig ds s).2 = s.setObject rig o' ∧
      o.Frame (applied (runDrivers rig ds s).1) o' := by
  induction ds generalizing s o with
  | nil => exact ⟨o, (setObject_self ho).symm, .refl o⟩
  | cons d r ih =>
    obtain ⟨o₁, hs, hfirst⟩ := frame_runDriver ho d
    obtain ⟨o', hs', hrest⟩ := ih (hs ▸ object_setObject s rig o₁)
    rw [runDrivers]
    dsimp only
    rw [hs', hs, setObject_setObject, applied_cons]
    exact ⟨o', rfl, hfirst.trans (hs ▸ hrest)⟩

theorem value_of_applied (rig : String) (ds : List Driver) (s : Scene) {output : DriverOutput}
    (hmem : output ∈ (runDrivers rig ds s).1) (happlied : output.applied = true) :
    ∃ x, output = ⟨output.dataPath, some x, true⟩ := by
  induction ds generalizing s with
  | nil => cases hmem
  | cons d r ih =>
    rw [runDrivers] at hmem
    rcases List.mem_cons.mp hmem with hfirst | hmem
    · obtain ⟨e, -, hd⟩ | ⟨x, e, -, -, hd⟩ | ⟨x, s', -, -, hd⟩ := runDriver_outcome rig s d
      · rw [hfirst, hd] at happlied
        cases happlied
      · rw [hfirst, hd] at happlied
        cases happlied
      · exact ⟨x, by rw [hfirst, hd]⟩
    · exact ih _ hmem

theorem runDrivers_append (rig : String) (ds es : List Driver) (s : Scene) :
    runDrivers rig (ds ++ es) s =
      ((runDrivers rig ds s).1 ++ (runDrivers rig es (runDrivers rig ds s).2).1,
        (runDrivers rig es (runDrivers rig ds s).2).2) := by
  induction ds generalizing s with
  | nil => rfl
  | cons d r ih =>
    rw [List.cons_append, runDrivers, runDrivers]
    dsimp only
    rw [ih]
    rfl

end Scene

end PoseRig
