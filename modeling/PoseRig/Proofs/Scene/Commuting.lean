import PoseRig.Proofs.Scene.EvalTime
import PoseRig.Proofs.Scene.ReadBack

/-!
# Drivers in any order

A driver that reads channels and is bound to a part of a constraint, or to the influence of a pose,
writes nothing that such a driver reads, and distinct paths lead to distinct parts. So such drivers
commute: in whatever order they run, each gives the same output and the scene ends up the same.
-/

set_option autoImplicit false

namespace PoseRig

variable {x y : Scalar}

namespace Path

def ofPart (bone constraint part : String) : Path :=
  ⟨(ofConstraint bone constraint).selectors ++ [.field part]⟩

def part? (path : Path) : Option (String × String × String) :=
  match path.selectors with
  | [.field pose, .field bones, .key bone, .field constraints, .key name, .field part] =>
    if pose = "pose" ∧ bones = "bones" ∧
      constraints = "constraints" then some (bone, name, part) else none
  | _ => none

theorem eq_ofPart {path : Path} {bone name part : String}
    (h : path.part? = some (bone, name, part)) : path = ofPart bone name part := by
  unfold part? at h
  split at h
  · rename_i hselectors
    split at h
    · rename_i hfields
      obtain ⟨rfl, rfl, rfl⟩ := hfields
      cases h
      exact congrArg Path.mk hselectors
    · cases h
  · cases h

/-- A path to the evaluation time or the influence of a constraint, or to the influence of a
pose. -/
inductive Compiled : Path → Prop where
  | evalTime (bone name : String) : Compiled (.evalTime bone name)
  | weight (bone name : String) : Compiled (.ofPart bone name "influence")
  | influence (pose : String) : Compiled (.influence pose)

end Path

namespace Constraint

variable {part part' : String}

def setPart (c : Constraint) (part : String) (x : Scalar) : Constraint := (c.set? part x).getD c

theorem name_setPart (c : Constraint) (part : String) (x : Scalar) :
    (c.setPart part x).name = c.name := by
  cases h : c.set? part x with
  | none => rw [setPart, h, Option.getD_none]
  | some c' => rw [setPart, h, Option.getD_some, name_set? h]

theorem setPart_eq (c : Constraint) (part : String) (x : Scalar) : c.setPart part x =
    { c with
      evalTime := if part = "eval_time" then x else c.evalTime
      influence := if part = "influence" then x else c.influence } := by
  unfold setPart set?
  split_ifs with htime hinfluence hinfluence
  · exact absurd (htime.symm.trans hinfluence) (by decide)
  · rfl
  · rfl
  · rfl

theorem setPart_comm (c : Constraint) (h : part ≠ part') :
    (c.setPart part x).setPart part' y = (c.setPart part' y).setPart part x := by
  have hone {p : String} (hp : part' = p) : part ≠ p := fun hp' => h (hp'.trans hp.symm)
  simp only [setPart_eq, Constraint.mk.injEq, true_and]
  constructor
  · split_ifs with hp' hp
    · exact absurd hp (hone hp')
    · rfl
    · rfl
    · rfl
  · split_ifs with hp' hp
    · exact absurd hp (hone hp')
    · rfl
    · rfl
    · rfl

end Constraint

namespace Bone

theorem isSome_constraint? (b : Bone) (name : String) :
    (b.constraint? name).isSome = decide (name ∈ b.constraintNames) := by
  rw [Bool.eq_iff_iff, decide_eq_true_iff, constraint?, List.find?_isSome,
    constraintNames, List.mem_map]
  simp only [beq_iff_eq]

theorem updateFirst_comm {m n : String} {f g : Constraint → Constraint}
    (hf : ∀ c, (f c).name = c.name) (hg : ∀ c, (g c).name = c.name)
    (h : m = n → ∀ c, g (f c) = f (g c)) (cs : List Constraint) :
    updateFirst n g (updateFirst m f cs) = updateFirst m f (updateFirst n g cs) := by
  induction cs with
  | nil => rfl
  | cons c r ih =>
    by_cases hm : c.name = m
    · by_cases hn : c.name = n
      · simp only [updateFirst, if_pos hm, if_pos hn, hf, hg, h (hm.symm.trans hn)]
      · simp only [updateFirst, if_pos hm, if_neg hn, hf]
    · by_cases hn : c.name = n
      · simp only [updateFirst, if_neg hm, if_pos hn, hg]
      · simp only [updateFirst, if_neg hm, if_neg hn, ih]

theorem updateConstraint_comm (b : Bone) {m n : String} {f g : Constraint → Constraint}
    (hf : ∀ c, (f c).name = c.name) (hg : ∀ c, (g c).name = c.name)
      (h : m = n → ∀ c, g (f c) = f (g c)) :
    (b.updateConstraint m f).updateConstraint n g = (b.updateConstraint n g).updateConstraint m f :=
  congrArg (fun cs => { b with constraints := cs }) (updateFirst_comm hf hg h b.constraints)

end Bone

theorem Armature.updateBone_comm (a : Armature) {m n : String} {f g : Bone → Bone}
    (h : m = n → ∀ b, g (f b) = f (g b)) :
    (a.updateBone m f).updateBone n g = (a.updateBone n g).updateBone m f :=
  congrArg (fun bones => { a with bones := bones }) (Table.update_comm a.bones h)

namespace Object

variable {o : Object} {path path' : Path}

def edit (path : Path) (x : Scalar) (o : Object) : Object :=
  match path.part? with
  | none => o
  | some (bone, name, part) =>
    { o with armature := o.armature.map fun a =>
        a.updateBone bone fun b => b.updateConstraint name fun c => c.setPart part x }

def accepts (path : Path) (o : Object) : Bool :=
  match path.part? with
  | none => false
  | some (bone, name, _) =>
    ((o.armature.bind fun a => a.bones.get? bone).bind fun b => b.constraint? name).isSome

theorem edit_comm (h : path ≠ path') (o : Object) :
    (o.edit path x).edit path' y = (o.edit path' y).edit path x := by
  unfold edit
  cases hpath : path.part? with
  | none => rfl
  | some place =>
    cases hpath' : path'.part? with
    | none => rfl
    | some place' =>
      obtain ⟨bone, name, part⟩ := place
      obtain ⟨bone', name', part'⟩ := place'
      dsimp only
      rw [Option.map_map, Option.map_map]
      congr 2
      funext a
      apply a.updateBone_comm
      intro hbone b
      refine b.updateConstraint_comm (fun c => c.name_setPart part x)
        (fun c => c.name_setPart part' y) ?_
      intro hname c
      apply c.setPart_comm
      rintro rfl
      exact h (by rw [Path.eq_ofPart hpath, Path.eq_ofPart hpath', hbone, hname])

theorem accepts_edit (path path' : Path) (x : Scalar) (o : Object) :
    (o.edit path' x).accepts path = o.accepts path := by
  unfold accepts edit
  cases path.part? with
  | none => rfl
  | some place =>
    cases path'.part? with
    | none => rfl
    | some place' =>
      obtain ⟨bone, name, part⟩ := place
      obtain ⟨bone', name', part'⟩ := place'
      have hconstraint (b : Bone) :
          ((b.updateConstraint name' fun c => c.setPart part' x).constraint? name).isSome =
            (b.constraint? name).isSome := by
        have hnames : (b.updateConstraint name' fun c => c.setPart part' x).constraintNames =
            b.constraintNames :=
          Bone.names_updateFirst (fun c hc => (c.name_setPart part' x).trans hc) b.constraints
        rw [Bone.isSome_constraint?, Bone.isSome_constraint?, hnames]
      cases o.armature with
      | none => rfl
      | some a =>
        simp only [Option.map_some, Option.bind_some, Armature.updateBone, Table.get?_update]
        split_ifs
        · cases a.bones.get? bone with
          | none => rfl
          | some b => exact hconstraint b
        · rfl

theorem edit_ofPart (o : Object) (bone name part : String) (x : Scalar) :
    o.edit (.ofPart bone name part) x =
      { o with armature := o.armature.map fun a =>
          a.updateBone bone fun b => b.updateConstraint name fun c => c.setPart part x } := rfl

theorem accepts_ofPart (o : Object) (bone name part : String) :
    o.accepts (.ofPart bone name part) =
      ((o.armature.bind fun a => a.bones.get? bone).bind fun b => b.constraint? name).isSome := rfl

theorem write_ofPart {bone name part : String} (hpart : part = "eval_time" ∨ part = "influence")
    (o : Object) (called : String) (x : Scalar) :
    if o.accepts (.ofPart bone name part) = true then
      o.write called (.ofPart bone name part) x = .ok (o.edit (.ofPart bone name part) x)
    else ∃ e, o.write called (.ofPart bone name part) x = .error e := by
  have hset (c : Constraint) : c.set? part x = some (c.setPart part x) := by
    obtain rfl | rfl := hpart
    · rfl
    · rfl
  rw [accepts_ofPart, edit_ofPart]
  cases hb : o.armature.bind fun a => a.bones.get? bone with
  | none => simp [write, Path.ofPart, Path.ofConstraint, hb]
  | some b =>
    cases hc : b.constraint? name with
    | none => simp [write, Path.ofPart, Path.ofConstraint, Bone.write?, hb, hc]
    | some c =>
      obtain ⟨a, ha, hab⟩ := Option.bind_eq_some_iff.mp hb
      have hbone : (b.updateConstraint name fun _ => c.setPart part x) =
          b.updateConstraint name fun c => c.setPart part x :=
        congrArg (fun cs => { b with constraints := cs })
          (Bone.updateFirst_const (f := fun c => c.setPart part x) hc)
      have hbones : (a.updateBone bone fun _ => b.updateConstraint name fun c => c.setPart part x) =
          a.updateBone bone fun b => b.updateConstraint name fun c => c.setPart part x := by
        refine congrArg (fun bones => { a with bones := bones })
          (Table.update_congr a.bones bone ?_)
        intro b' hb'
        rw [Option.some.inj (hb'.symm.trans hab)]
      simp [write, Path.ofPart, Path.ofConstraint, Bone.write?, ha, hab, hc, hset, hbone, hbones]

theorem write_compiled (hpath : path.Compiled) (o : Object) (called : String) (x : Scalar) :
    if o.accepts path = true then o.write called path x = .ok (o.edit path x)
    else ∃ e, o.write called path x = .error e := by
  cases hpath with
  | evalTime bone name => exact o.write_ofPart (Or.inl rfl) called x
  | weight bone name => exact o.write_ofPart (Or.inr rfl) called x
  | influence pose => exact ⟨_, rfl⟩

def setDrivers (ds : List Driver) (o : Object) : Object :=
  { o with animation := o.animation.map fun m => { m with drivers := ds } }

theorem drivers_setDrivers {ds : List Driver} (h : ds.Perm o.animationOrNew.drivers) :
    (o.setDrivers ds).animationOrNew.drivers = ds := by
  unfold animationOrNew setDrivers at *
  cases hanimation : o.animation with
  | none =>
    rw [hanimation] at h
    exact h.eq_nil.symm
  | some m => rfl

theorem edit_setDrivers (o : Object) (path : Path) (x : Scalar) (ds : List Driver) :
    (o.setDrivers ds).edit path x = (o.edit path x).setDrivers ds := by
  unfold edit
  cases path.part? <;> rfl

end Object

def VariableSource.IsChannel : VariableSource → Prop
  | .channel .. => True
  | .property .. => False

/-- The driver reads channels only and is bound to a path that compiling binds drivers to. -/
structure Driver.Compiled (d : Driver) : Prop where
  sources : ∀ v ∈ d.vars, v.source.IsChannel
  path : d.dataPath.Compiled

namespace Scene

variable {s t : Scene} {rig : String} {path path' : Path} {d e : Driver} {ds : List Driver}

def accepts (rig : String) (path : Path) (s : Scene) : Bool :=
  (s.objects.get? rig).any fun o => o.accepts path

def edit (rig : String) (path : Path) (x : Scalar) (s : Scene) : Scene :=
  if s.accepts rig path then s.updateObject rig fun o => o.edit path x else s

def setDrivers (rig : String) (ds : List Driver) (s : Scene) : Scene :=
  s.updateObject rig fun o => o.setDrivers ds

theorem writeProperty_compiled (hpath : path.Compiled) (s : Scene) (rig : String) (x : Scalar) :
    if s.accepts rig path = true then s.writeProperty rig path x = .ok (s.edit rig path x)
    else ∃ e, s.writeProperty rig path x = .error e := by
  cases ho : s.objects.get? rig with
  | none => simp [accepts, writeProperty, object, ho]
  | some o =>
    have hobject := object_eq_ok.mpr ho
    have haccepts : s.accepts rig path = o.accepts path := by rw [accepts, ho, Option.any_some]
    have hwrite := Object.write_compiled hpath o rig x
    rw [haccepts]
    split_ifs with h
    · rw [if_pos h] at hwrite
      simp only [writeProperty, hobject, hwrite, edit, haccepts, if_pos h, updateObject_eq hobject]
    · rw [if_neg h] at hwrite
      obtain ⟨e, he⟩ := hwrite
      exact ⟨e, by simp only [writeProperty, hobject, he]⟩

theorem runDriver_compiled (hd : d.Compiled) (rig : String) (s : Scene) :
    runDriver rig s d =
      match s.driverValue d with
      | .error _ => (⟨d.dataPath, none, false⟩, s)
      | .ok x => (⟨d.dataPath, some x, s.accepts rig d.dataPath⟩, s.edit rig d.dataPath x) := by
  unfold runDriver
  cases s.driverValue d with
  | error e => rfl
  | ok x =>
    have hwrite := writeProperty_compiled hd.path s rig x
    dsimp only
    split_ifs at hwrite with h
    · rw [hwrite, h]
    · obtain ⟨e, he⟩ := hwrite
      rw [he, edit, if_neg h, (Bool.not_eq_true _).mp h]

theorem updateObject_comm (s : Scene) (name : String) {f g : Object → Object}
    (h : ∀ o, g (f o) = f (g o)) :
    (s.updateObject name f).updateObject name g = (s.updateObject name g).updateObject name f :=
  congrArg (fun objects => { s with objects := objects }) (Table.update_comm s.objects fun _ => h)

theorem accepts_updateObject {f : Object → Object} (hf : ∀ o, (f o).accepts path = o.accepts path)
    (s : Scene) (rig : String) : (s.updateObject rig f).accepts rig path = s.accepts rig path := by
  rw [accepts, updateObject, Table.get?_update, if_pos rfl, accepts]
  cases s.objects.get? rig with
  | none => rfl
  | some o => exact hf o

theorem accepts_edit (s : Scene) (rig : String) (path path' : Path) (x : Scalar) :
    (s.edit rig path' x).accepts rig path = s.accepts rig path := by
  unfold edit
  split_ifs
  · exact accepts_updateObject (Object.accepts_edit path path' x) s rig
  · rfl

theorem edit_comm (h : path ≠ path') (s : Scene) (rig : String) (x y : Scalar) :
    (s.edit rig path x).edit rig path' y = (s.edit rig path' y).edit rig path x := by
  rw [edit, accepts_edit, edit.eq_def rig path x (edit rig path' y s), accepts_edit]
  unfold edit
  split_ifs
  · exact s.updateObject_comm rig (Object.edit_comm h)
  · rfl
  · rfl
  · rfl

theorem driverValue_congr (hsources : ∀ v ∈ d.vars, v.source.IsChannel)
    (h : ∀ object bone channel space reading,
      t.channelValue object bone channel space reading =
        s.channelValue object bone channel space reading) :
    t.driverValue d = s.driverValue d := by
  have hvars (vs : List Variable) (hvs : ∀ v ∈ vs, v.source.IsChannel) :
      t.readVariables vs = s.readVariables vs := by
    induction vs with
    | nil => rfl
    | cons v r ih =>
      obtain ⟨hv, hr⟩ := List.forall_mem_cons.mp hvs
      have hvalue : t.sourceValue v.source = s.sourceValue v.source := by
        cases hsource : v.source with
        | channel object bone channel space reading => exact h object bone channel space reading
        | property object path =>
          rw [hsource] at hv
          cases hv
      rw [readVariables, readVariables, hvalue, ih hr]
  rw [driverValue, driverValue, hvars d.vars hsources]

theorem bare_edit (s : Scene) (rig : String) (path : Path) (x : Scalar) :
    (s.edit rig path x).bare = s.bare := by
  have hobject (o : Object) : (o.edit path x).bare = o.bare := by
    unfold Object.edit
    cases path.part? with
    | none => rfl
    | some place =>
      have harmature (a : Armature) (f : Constraint → Constraint) :
          ((a.updateBone place.1 fun b => b.updateConstraint place.2.1 f).mapBones
            fun _ b => b.bare) =
            a.mapBones fun _ b => b.bare :=
        congrArg (fun bones => { a with bones := bones })
          (Table.map_update a.bones place.1 (fun b => b.updateConstraint place.2.1 f)
            (fun _ b => b.bare)
            fun b _ => rfl)
      simp only [Object.bare, Option.map_map, Function.comp_def, harmature]
  unfold edit
  split_ifs
  · exact congrArg (fun objects => { s with objects := objects })
      (Table.map_update s.objects rig _ (fun _ o => o.bare) fun o _ => hobject o)
  · rfl

theorem driverValue_edit (hd : d.Compiled) (s : Scene) (rig : String) (path : Path) (x : Scalar) :
    (s.edit rig path x).driverValue d = s.driverValue d := by
  apply driverValue_congr hd.sources
  intro object bone channel space reading
  rw [← channelValue_bare, bare_edit, channelValue_bare]

theorem object_setDrivers (s : Scene) (rig : String) (ds : List Driver) (name : String) :
    (s.setDrivers rig ds).object name =
      (s.object name).map fun o => if name = rig then o.setDrivers ds else o := by
  rw [object, object, setDrivers, updateObject, Table.get?_update]
  by_cases h : name = rig
  · cases hname : s.objects.get? name <;> simp [h, Except.map]
  · cases hname : s.objects.get? name <;> simp [h, Except.map]

theorem armature_setDrivers (s : Scene) (rig : String) (ds : List Driver) (name : String) :
    (s.setDrivers rig ds).armature name = s.armature name := by
  rw [armature, armature, object_setDrivers]
  cases s.object name with
  | error e => rfl
  | ok o =>
    simp only [Except.map]
    split_ifs <;> rfl

theorem channelValue_setDrivers (s : Scene) (rig : String) (ds : List Driver) (object bone : String)
    (channel : Channel) (space : Space) (reading : RotationReading) :
    (s.setDrivers rig ds).channelValue object bone channel space reading =
      s.channelValue object bone channel space reading := by
  have hbone : (s.setDrivers rig ds).bone object bone = s.bone object bone := by
    rw [Scene.bone, Scene.bone, armature_setDrivers]
  have hlocal :
      (s.setDrivers rig ds).localTransform object bone = s.localTransform object bone := by
    rw [localTransform, localTransform, hbone, object_setDrivers]
    cases s.object object with
    | error e => rfl
    | ok o =>
      simp only [Except.map]
      split_ifs <;> rfl
  have hworld :
      (s.setDrivers rig ds).worldPlacement object bone = s.worldPlacement object bone := by
    rw [worldPlacement, worldPlacement, armature_setDrivers, object_setDrivers]
    cases s.object object with
    | error e => rfl
    | ok o =>
      have htransform : (if object = rig then o.setDrivers ds else o).transform = o.transform := by
        split_ifs <;> rfl
      simp only [Except.map, htransform]
  rw [channelValue, channelValue, sampled, sampled, hlocal, hworld]

theorem accepts_setDrivers (s : Scene) (rig : String) (path : Path) (ds : List Driver) :
    (s.setDrivers rig ds).accepts rig path = s.accepts rig path :=
  accepts_updateObject (f := fun o => o.setDrivers ds) (fun _ => rfl) s rig

theorem edit_setDrivers (s : Scene) (rig : String) (path : Path) (x : Scalar) (ds : List Driver) :
    (s.setDrivers rig ds).edit rig path x = (s.edit rig path x).setDrivers rig ds := by
  rw [edit, accepts_setDrivers, edit]
  split_ifs
  · exact s.updateObject_comm rig fun o => o.edit_setDrivers path x ds
  · rfl

theorem output_runDriver_runDriver (hd : d.Compiled) (he : e.Compiled) (rig : String) (s : Scene) :
    (runDriver rig (runDriver rig s e).2 d).1 = (runDriver rig s d).1 := by
  rw [runDriver_compiled he]
  cases s.driverValue e with
  | error _ => rfl
  | ok y =>
    dsimp only
    rw [runDriver_compiled hd, runDriver_compiled hd, driverValue_edit hd, accepts_edit]
    cases s.driverValue d <;> rfl

theorem runDriver_comm (hd : d.Compiled) (he : e.Compiled) (hpaths : d.dataPath ≠ e.dataPath)
    (rig : String) (s : Scene) :
    (runDriver rig (runDriver rig s d).2 e).2 = (runDriver rig (runDriver rig s e).2 d).2 := by
  rw [runDriver_compiled he, runDriver_compiled hd, runDriver_compiled hd, runDriver_compiled he]
  cases hx : s.driverValue d with
  | error _ =>
    cases hy : s.driverValue e with
    | error _ => simp only [hx]
    | ok y => simp only [driverValue_edit hd, hx]
  | ok x =>
    cases hy : s.driverValue e with
    | error _ => simp only [driverValue_edit he, hx, hy]
    | ok y => simp only [driverValue_edit hd, driverValue_edit he, hx, hy, edit_comm hpaths]

theorem runDriver_setDrivers (hd : d.Compiled) (rig : String) (ds : List Driver) (s : Scene) :
    runDriver rig (s.setDrivers rig ds) d =
      ((runDriver rig s d).1, (runDriver rig s d).2.setDrivers rig ds) := by
  have hvalue : (s.setDrivers rig ds).driverValue d = s.driverValue d :=
    driverValue_congr hd.sources (s.channelValue_setDrivers rig ds)
  rw [runDriver_compiled hd, runDriver_compiled hd, hvalue, accepts_setDrivers]
  cases s.driverValue d with
  | error _ => rfl
  | ok x => simp only [edit_setDrivers]

/-- In a run each driver gives what it would give on the scene at the start. -/
theorem runDrivers_compiled (h : ∀ d ∈ ds, d.Compiled) (rig : String) (s : Scene) :
    runDrivers rig ds s =
      (ds.map fun d => (runDriver rig s d).1, ds.foldl (fun s d => (runDriver rig s d).2) s) := by
  induction ds generalizing s with
  | nil => rfl
  | cons d r ih =>
    obtain ⟨hd, hr⟩ := List.forall_mem_cons.mp h
    have houtputs : (r.map fun e => (runDriver rig (runDriver rig s d).2 e).1) =
        r.map fun e => (runDriver rig s e).1 :=
      List.map_congr_left fun e he => output_runDriver_runDriver (hr e he) hd rig s
    rw [runDrivers]
    dsimp only
    rw [ih hr, houtputs]
    rfl

theorem runDrivers_setDrivers (h : ∀ d ∈ ds, d.Compiled) (rig : String) (es : List Driver)
    (s : Scene) :
    runDrivers rig ds (s.setDrivers rig es) =
      ((runDrivers rig ds s).1, (runDrivers rig ds s).2.setDrivers rig es) := by
  induction ds generalizing s with
  | nil => rfl
  | cons d r ih =>
    obtain ⟨hd, hr⟩ := List.forall_mem_cons.mp h
    rw [runDrivers, runDrivers, runDriver_setDrivers hd]
    dsimp only
    rw [ih hr]

/-- Drivers of a rig that read channels and are bound to distinct compiled paths can be evaluated in
any order: each has the same output, with its value and whether it was applied, and the scenes that
are left differ in the order of the drivers only. -/
theorem evaluateDrivers_perm (s : Scene) (rig : String) (o : Object) (ho : s.object rig = .ok o)
    (hcompiled : ∀ d ∈ o.animationOrNew.drivers, d.Compiled)
    (hpaths : (o.animationOrNew.drivers.map Driver.dataPath).Nodup) (ds : List Driver)
    (hperm : ds.Perm o.animationOrNew.drivers) :
    ∃ (output : Driver → DriverOutput) (s' : Scene),
      s.evaluateDrivers rig = .ok (o.animationOrNew.drivers.map output, s') ∧
      (s.setDrivers rig ds).evaluateDrivers rig = .ok (ds.map output, s'.setDrivers rig ds) := by
  have hcompiled' : ∀ d ∈ ds, d.Compiled := fun d hd => hcompiled d (hperm.subset hd)
  have hscene : (runDrivers rig ds s).2 = (runDrivers rig o.animationOrNew.drivers s).2 := by
    rw [runDrivers_compiled hcompiled', runDrivers_compiled hcompiled]
    apply hperm.foldl_eq'
    intro d hd e he t
    by_cases hsame : d = e
    · rw [hsame]
    · have hnodup := (hperm.map Driver.dataPath).nodup_iff.mpr hpaths
      have hdistinct := List.inj_on_of_nodup_map hnodup
      exact runDriver_comm (hcompiled' d hd) (hcompiled' e he)
        (fun h => hsame (hdistinct hd he h)) rig t
  have ho' : (s.setDrivers rig ds).object rig = .ok (o.setDrivers ds) := by
    rw [object_setDrivers, ho, Except.map, if_pos rfl]
  refine ⟨fun d => (runDriver rig s d).1, (runDrivers rig o.animationOrNew.drivers s).2, ?_, ?_⟩
  · rw [evaluateDrivers, ho]
    dsimp only
    rw [runDrivers_compiled hcompiled]
  · rw [evaluateDrivers, ho']
    dsimp only
    rw [Object.drivers_setDrivers hperm, runDrivers_setDrivers hcompiled', hscene,
      runDrivers_compiled hcompiled']

def jawDrivers : List Driver :=
  [⟨.evalTime "Jaw" "AP-Open", "min(x)",
    [⟨"x", .channel "Rig" "Jaw" ⟨.location, .y⟩ .local .auto⟩]⟩,
    ⟨.ofPart "Jaw" "AP-Open" "influence", "1 +", []⟩,
      ⟨.influence "Open", "x / 2", [⟨"x", .channel "Rig" "Jaw" ⟨.scale, .y⟩ .world .auto⟩]⟩]

def drivenRig : Object where
  kind := .armature
  armature := some { bones := .ofList [("Jaw", { constraints := [{ name := "AP-Open" }] })] }
  animation := some { drivers := jawDrivers }

def drivenScene : Scene where
  objects := .ofList [("Rig", drivenRig)]

theorem evaluateDrivers_perm_jaw :
    jawDrivers.reverse ≠ jawDrivers ∧
      ∃ (output : Driver → DriverOutput) (s' : Scene),
        drivenScene.evaluateDrivers "Rig" = .ok (jawDrivers.map output, s') ∧
        (drivenScene.setDrivers "Rig" jawDrivers.reverse).evaluateDrivers "Rig" =
          .ok (jawDrivers.reverse.map output, s'.setDrivers "Rig" jawDrivers.reverse) := by
  have hcompiled : ∀ d ∈ jawDrivers, d.Compiled := by
    simp only [jawDrivers, List.forall_mem_cons, List.not_mem_nil, false_implies,
      implies_true, and_true]
    refine ⟨⟨?_, .evalTime _ _⟩, ⟨nofun, .weight _ _⟩, ⟨?_, .influence _⟩⟩
    · exact fun v hv => List.mem_singleton.mp hv ▸ trivial
    · exact fun v hv => List.mem_singleton.mp hv ▸ trivial
  exact ⟨by decide, evaluateDrivers_perm drivenScene "Rig" drivenRig rfl hcompiled (by decide)
    jawDrivers.reverse (List.reverse_perm jawDrivers)⟩

end Scene

end PoseRig
