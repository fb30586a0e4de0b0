import PoseRig.Proofs.Scene.Object
import PoseRig.Proofs.Scene.Write

/-!
# Reading what was written

A value written at a path is what reading the path gives. There is one exception: a bone is read as
one record of its attributes and its custom properties, so a custom property that has the name of an
attribute is written but the attribute is read.
-/

set_option autoImplicit false

namespace PoseRig

variable {x : Scalar}

namespace Value

variable {fields : List (String × Value)}

theorem member?_ofFields (fields : List (String × Value)) (name : String) :
    (ofFields fields).member? name = (Table.ofList fields).get? name :=
  Entries.lookup_eq_get? _ name

theorem member?_of_nodup (h : (Entries.names fields).Nodup) (name : String) :
    (ofFields fields).member? name = Entries.get? name fields := by
  rw [member?_ofFields, Table.get?_ofList h]

end Value

namespace Transform

structure Shown (t : Transform) (find : String → Option Value) : Prop where
  location : find "location" = some (.vec3 t.location)
  rotationEuler : find "rotation_euler" = some (.vec3 t.rotationEuler)
  rotationQuaternion : find "rotation_quaternion" = some (.quat t.rotationQuaternion)
  scale : find "scale" = some (.vec3 t.scale)

theorem component?_setTriple? {v v' : Vec} {i : Nat} (h : setTriple? v i x = some v') :
    (Value.vec3 v').component? i = some (.float x) := by
  obtain ⟨axis, haxis, rfl⟩ := Option.map_eq_some_iff.mp h
  unfold Axis.ofIndex? at haxis
  split at haxis <;> cases haxis <;> rfl

theorem component?_setQuat? {q q' : Quat} {i : Nat} (h : setQuat? q i x = some q') :
    (Value.quat q').component? i = some (.float x) := by
  unfold setQuat? at h
  split at h <;> cases h <;> rfl

theorem Shown.component? {t t' : Transform} {find : String → Option Value} (hfind : t'.Shown find)
    {part : String} {i : Nat} (h : t.setComponent? part i x = some t') :
    ∃ v, find part = some v ∧ v.component? i = some (.float x) := by
  unfold setComponent? at h
  split at h
  · obtain ⟨v, hv, rfl⟩ := Option.map_eq_some_iff.mp h
    rename_i hpart
    exact ⟨_, hpart ▸ hfind.location, component?_setTriple? hv⟩
  split at h
  · obtain ⟨v, hv, rfl⟩ := Option.map_eq_some_iff.mp h
    rename_i hpart
    exact ⟨_, hpart ▸ hfind.rotationEuler, component?_setTriple? hv⟩
  split at h
  · obtain ⟨q, hq, rfl⟩ := Option.map_eq_some_iff.mp h
    rename_i hpart
    exact ⟨_, hpart ▸ hfind.rotationQuaternion, component?_setQuat? hq⟩
  split at h
  · obtain ⟨v, hv, rfl⟩ := Option.map_eq_some_iff.mp h
    rename_i hpart
    exact ⟨_, hpart ▸ hfind.scale, component?_setTriple? hv⟩
  · cases h

end Transform

theorem Constraint.member?_set? {c c' : Constraint} {part : String} (h : c.set? part x = some c') :
    c'.value.member? part = some (.float x) := by
  have hvalue : c'.value.member? part = _ := Value.member?_of_nodup (by simp [Entries.names]) part
  rw [hvalue]
  obtain ⟨rfl, rfl⟩ | ⟨rfl, rfl⟩ := set?_cases h
  · simp [Entries.get?]
  · simp [Entries.get?]

namespace Bone

variable {b b' : Bone} {name : String} {cs : List Constraint}

theorem get?_constraints (cs : List Constraint) (name : String) :
    Entries.get? name (cs.map fun c => (c.name, c.value)) =
      (cs.find? fun c => c.name == name).map Constraint.value := by
  induction cs with
  | nil => rfl
  | cons c r ih =>
    by_cases h : c.name = name
    · simp [Entries.get?, h]
    · simp [Entries.get?, h, ih]

theorem names_updateFirst {f : Constraint → Constraint}
    (hf : ∀ c, c.name = name → (f c).name = name)
    (cs : List Constraint) : (updateFirst name f cs).map (·.name) = cs.map (·.name) := by
  induction cs with
  | nil => rfl
  | cons c r ih =>
    rw [updateFirst]
    split
    · rename_i hname
      rw [List.map_cons, List.map_cons, hf c hname, hname]
    · rw [List.map_cons, List.map_cons, ih]

theorem find?_updateFirst {f : Constraint → Constraint}
    (hf : ∀ c, c.name = name → (f c).name = name) (cs : List Constraint) :
    (updateFirst name f cs).find? (fun c => c.name == name) =
      (cs.find? fun c => c.name == name).map f := by
  induction cs with
  | nil => rfl
  | cons c r ih =>
    rw [updateFirst]
    split
    · rename_i hname
      simp [hname, hf c hname]
    · rename_i hname
      simp [hname, ih]

def attributeNames : List String :=
  ["location", "rotation_euler", "rotation_quaternion", "rotation_mode", "scale", "head",
    "select", "parent", "constraints"]

theorem names_attributes (b : Bone) : Entries.names b.attributes = attributeNames := rfl

theorem member?_value (b : Bone) (name : String) :
    b.value.member? name = (Entries.get? name b.attributes).or (b.properties.get? name) := by
  have hnodup : (Entries.names b.attributes).Nodup := by
    rw [names_attributes]
    decide
  rw [value, Value.member?_ofFields, Table.get?_ofList_append, Table.get?_ofList hnodup,
    Table.ofList_entries]

theorem member?_of_attribute (h : name ∈ attributeNames) :
    b.value.member? name = Entries.get? name b.attributes := by
  obtain ⟨v, hv⟩ := Option.isSome_iff_exists.mp ((Entries.isSome_get? name b.attributes).mpr h)
  rw [member?_value, hv, Option.some_or]

theorem member?_of_custom (h : name ∉ attributeNames) :
    b.value.member? name = b.properties.get? name := by
  have hnone : Entries.get? name b.attributes = none :=
    Option.not_isSome_iff_eq_none.mp (mt (Entries.isSome_get? name b.attributes).mp h)
  rw [member?_value, hnone, Option.none_or]

theorem shown_value (b : Bone) : b.transform.Shown b.value.member? where
  location := member?_of_attribute (by decide)
  rotationEuler := member?_of_attribute (by decide)
  rotationQuaternion := member?_of_attribute (by decide)
  scale := member?_of_attribute (by decide)

theorem member?_constraints (h : b.constraintNames.Nodup) :
    ∃ v, b.value.member? "constraints" = some v ∧
      ∀ name, v.member? name = (b.constraint? name).map Constraint.value := by
  refine ⟨_, member?_of_attribute (by decide), ?_⟩
  intro name
  have hnodup : (Entries.names (b.constraints.map fun c => (c.name, c.value))).Nodup := by
    simpa [Entries.names, constraintNames, Function.comp_def] using h
  rw [Value.member?_of_nodup hnodup, get?_constraints, constraint?]

theorem walk_write? {selectors : List Selector} (hw : b.write? selectors x = some b')
    (hdistinct : b.constraintNames.Nodup)
      (hcustom : ∀ key, selectors = [.key key] → key ∉ attributeNames)
    (path : Path) : path.walk b'.value selectors = .ok (.float x) := by
  obtain ⟨key, rfl, rfl⟩ | ⟨name, part, c, c', rfl, hc, hset, rfl⟩ | ⟨part, i, t, rfl, ht, rfl⟩ :=
    write?_cases hw
  · have hread :=
      member?_of_custom (b := { b with properties := b.properties.insert key (.float x) })
      (hcustom key rfl)
    rw [Table.get?_insert, if_pos rfl] at hread
    simp [Path.walk, Source.lookup?, Value.source, hread]
  · have hname : c'.name = name := by
      rw [Constraint.name_set? hset]
      simpa using List.find?_some hc
    -- a constraint is written by its first occurrence and read by its last, so names have to be
    -- distinct
    have hread : (b.updateConstraint name fun _ => c').constraint? name = some c' :=
      (find?_updateFirst (fun _ _ => hname) b.constraints).trans (congrArg _ hc)
    have hdistinct' : (b.updateConstraint name fun _ => c').constraintNames.Nodup := by
      rwa [constraintNames, updateConstraint, names_updateFirst fun _ _ => hname]
    obtain ⟨v, hv, hfind⟩ := member?_constraints hdistinct'
    simp [Path.walk, Source.lookup?, Value.source, hv, hfind, hread, Constraint.member?_set? hset]
  · obtain ⟨v, hv, hcomponent⟩ := (shown_value { b with transform := t }).component? ht
    simp [Path.walk, Source.lookup?, Value.source, hv, hcomponent]

theorem walk_write?_hidden {key : String} (hw : b.write? [.key key] x = some b')
    (hkey : key ∈ attributeNames) (path : Path) :
    path.walk b'.value [.key key] = path.walk b.value [.key key] := by
  obtain rfl :
    { b with properties := b.properties.insert key (.float x) } = b' := Option.some.inj hw
  have hread :
      ({ b with properties := b.properties.insert key (.float x) } : Bone).value.member? key =
        b.value.member? key := by
    rw [member?_of_attribute hkey, member?_of_attribute hkey]
    rfl
  simp only [Path.walk, Source.lookup?, Value.source, hread]

end Bone

/-- A path to a custom property of a bone that has the name of an attribute of the bone. -/
def Path.Hidden (path : Path) : Prop :=
  ∃ bone key, path.selectors = [.field "pose", .field "bones", .key bone, .key key] ∧
    key ∈ Bone.attributeNames

namespace Object

variable {o o' : Object} {a : Armature} {b : Bone} {name bone : String} {path : Path}
  {rest : List Selector}

theorem shown_attribute? (o : Object) : o.transform.Shown o.attribute? := ⟨rfl, rfl, rfl, rfl⟩

theorem resolve_bone (hpath : path.selectors = .field "pose" :: .field "bones" :: .key bone :: rest)
    (ha : o.armature = some a) (hb : a.bones.get? bone = some b) :
    path.resolve o.source = path.walk b.value rest := by
  have hpose : o.attribute? "pose" =
      some (.ofFields [("bones", .ofFields (a.bones.map fun _ b => b.value).entries)]) := by
    simp [attribute?, ha, Table.map]
  have hbones (v : Value) : (Value.ofFields [("bones", v)]).member? "bones" = some v := rfl
  have hbone :
      (Value.ofFields (a.bones.map fun _ b => b.value).entries).member? bone = some b.value := by
    rw [Value.member?_ofFields, Table.ofList_entries, Table.get?_map, hb, Option.map_some]
  simp [Path.resolve, Path.walk, hpath, Source.lookup?, source, Value.source, hpose, hbones, hbone]

theorem resolve_write (hw : o.write name path x = .ok o')
    (hdistinct :
      ∀ a, o.armature = some a → ∀ n b, a.bones.get? n = some b → b.constraintNames.Nodup)
    (hpath : ¬path.Hidden) : path.resolve o'.source = .ok (.float x) := by
  obtain ⟨key, hsel, rfl⟩ | ⟨part, i, t, hsel, ht, rfl⟩ | ⟨bone, rest, a, b, b', hsel, ha,
    hb, hb', rfl⟩ := write_cases hw
  · simp [Path.resolve, Path.walk, hsel, Source.lookup?, source, setProperty, Table.get?_insert]
  · obtain ⟨v, hv, hcomponent⟩ := (shown_attribute? { o with transform := t }).component? ht
    simp [Path.resolve, Path.walk, hsel, Source.lookup?, source, Value.source, hv, hcomponent]
  · have hcustom : ∀ key, rest = [.key key] → key ∉ Bone.attributeNames := by
      rintro key rfl hkey
      exact hpath ⟨bone, key, hsel, hkey⟩
    rw [resolve_bone hsel rfl (Armature.get?_updateBone_self hb)]
    exact Bone.walk_write? hb' (hdistinct a ha bone b hb) hcustom path

theorem resolve_write_hidden (hw : o.write name path x = .ok o') (hpath : path.Hidden) :
    path.resolve o'.source = path.resolve o.source := by
  obtain ⟨bone, key, hsel, hkey⟩ := hpath
  obtain ⟨_, hsel', -⟩ | ⟨_, _, _, hsel', -⟩ | ⟨_, _, a, b, b', hsel', ha, hb, hb', rfl⟩ :=
    write_cases hw
  · cases hsel.symm.trans hsel'
  · cases hsel.symm.trans hsel'
  · cases hsel.symm.trans hsel'
    rw [resolve_bone hsel rfl (Armature.get?_updateBone_self hb), resolve_bone hsel ha hb]
    exact Bone.walk_write?_hidden hb' hkey path

end Object

namespace Scene

variable {s s' : Scene} {object : String} {path : Path}

/-- No two constraints of a bone have one name. -/
def DistinctConstraints (s : Scene) : Prop :=
  ∀ o ∈ s.objects.values, ∀ a ∈ o.armature.toList, ∀ b ∈ a.bones.values, b.constraintNames.Nodup

instance (s : Scene) : Decidable s.DistinctConstraints :=
  inferInstanceAs (Decidable (∀ o ∈ s.objects.values, _))

theorem readProperty_of_resolve {o : Object} (ho : s.object object = .ok o)
    (h : path.resolve o.source = .ok (.float x)) : s.readProperty object path = .ok x := by
  simp [readProperty, ho, h, Value.toScalar?]

theorem readProperty_congr {o o' : Object} (ho : s.object object = .ok o)
    (ho' : s'.object object = .ok o') (h : path.resolve o'.source = path.resolve o.source) :
    s'.readProperty object path = s.readProperty object path := by
  simp only [readProperty, ho, ho', h]

theorem DistinctConstraints.of_object (h : s.DistinctConstraints) {o : Object}
    (ho : s.object object = .ok o) :
    ∀ a, o.armature = some a → ∀ n b, a.bones.get? n = some b → b.constraintNames.Nodup := by
  intro a ha n b hb
  have hobject := (s.objects.mem_values o).mpr ⟨object, object_eq_ok.mp ho⟩
  exact h o hobject a (Option.mem_toList.mpr ha) b ((a.bones.mem_values b).mpr ⟨n, hb⟩)

/-- Where constraints have distinct names, a value that is written at a path is what reading the
path gives, be it a custom property, a part of a constraint or a component of a transform. Only a
custom property of a bone that has the name of an attribute of the bone does not read back: the path
reads as it did before. -/
theorem readProperty_writeProperty (s s' : Scene) (hdistinct : s.DistinctConstraints)
    (object : String) (path : Path) (x : Scalar) (h : s.writeProperty object path x = .ok s') :
    (¬path.Hidden → s'.readProperty object path = .ok x) ∧
      (path.Hidden → s'.readProperty object path = s.readProperty object path) := by
  obtain ⟨o, o', ho, hw, rfl⟩ := writeProperty_cases h
  have ho' := object_setObject s object o'
  constructor
  · intro hpath
    exact readProperty_of_resolve ho' (Object.resolve_write hw (hdistinct.of_object ho) hpath)
  · intro hpath
    exact readProperty_congr ho ho' (Object.resolve_write_hidden hw hpath)

def namesakes : Scene where
  objects := .ofList
    [("Rig",
      { kind := .armature
        armature := some
          { bones := .ofList
              [("select", { constraints :=
                [{ name := "head" }, { name := "influence", influence := 0 }] })] } })]

def namesakeInfluence : Path :=
  ⟨[.field "pose", .field "bones", .key "select", .field "constraints", .key "influence",
    .field "influence"]⟩

def namesakeProperty : Path := ⟨[.field "pose", .field "bones", .key "select", .key "select"]⟩

theorem readProperty_writeProperty_namesakes :
    namesakes.DistinctConstraints ∧
      ∃ s₁ s₂, namesakes.writeProperty "Rig" namesakeInfluence 0.25 = .ok s₁ ∧
        s₁.readProperty "Rig" namesakeInfluence = .ok 0.25 ∧
        namesakes.writeProperty "Rig" namesakeProperty 0.25 = .ok s₂ ∧
        s₂.readProperty "Rig" namesakeProperty = namesakes.readProperty "Rig" namesakeProperty := by
  have hdistinct : namesakes.DistinctConstraints := by decide +kernel
  have hshown : ¬namesakeInfluence.Hidden := by
    rintro ⟨bone, key, hpath, -⟩
    cases hpath
  have hhidden : namesakeProperty.Hidden := ⟨"select", "select", rfl, by decide⟩
  refine ⟨hdistinct, _, _, rfl, ?_, rfl, ?_⟩
  · exact (readProperty_writeProperty namesakes _ hdistinct "Rig"
      namesakeInfluence 0.25 rfl).1 hshown
  · exact (readProperty_writeProperty namesakes _ hdistinct "Rig"
      namesakeProperty 0.25 rfl).2 hhidden

/-- What is written to the custom property `location` of a bone is not read: the bone's location is
found instead, which is no scalar. -/
theorem location_hides_property :
    namesakes.DistinctConstraints ∧
      ∃ s', namesakes.writeProperty "Rig"
          ⟨[.field "pose", .field "bones", .key "select", .key "location"]⟩ 0.25 = .ok s' ∧
        s'.readProperty "Rig" ⟨[.field "pose", .field "bones", .key "select", .key "location"]⟩ =
          .error (.notScalar ⟨[.field "pose", .field "bones", .key "select", .key "location"]⟩) :=
  ⟨by decide +kernel, _, rfl, rfl⟩

end Scene

end PoseRig
