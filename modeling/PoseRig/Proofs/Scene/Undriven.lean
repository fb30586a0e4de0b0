import PoseRig.Network.Build
import PoseRig.Proofs.Scene.Object
import PoseRig.Proofs.Scene.Write

/-!
# Constraints without a driver

A driver writes to a constraint only through a path that leads to its name. So drivers whose paths
avoid certain names leave the constraints of these names as they are, and every other constraint
keeps its name and its place. The outline of a bone shows just that much of it.
-/

set_option autoImplicit false

namespace PoseRig

/-- The path goes through no constraint with such a name. -/
def Path.Avoids (marked : String → Bool) (path : Path) : Prop :=
  ∀ name, path.constraint? = some name → marked name = false

/-- A marked constraint as it is, and of any other one the name. -/
def Constraint.outline (marked : String → Bool) (c : Constraint) : Constraint :=
  if marked c.name then c else { name := c.name }

def Bone.outline (marked : String → Bool) (b : Bone) : List Constraint :=
  b.constraints.map fun c => c.outline marked

def Armature.outline (marked : String → Bool) (a : Armature) : Table (List Constraint) :=
  a.bones.map fun _ b => b.outline marked

variable {marked : String → Bool} {x : Scalar}

namespace Constraint

variable {c d : Constraint}

theorem outline_of_marked (h : marked c.name = true) : c.outline marked = c := if_pos h

theorem outline_of_unmarked (h : marked c.name = false) : c.outline marked = { name := c.name } :=
  if_neg (by simp [h])

theorem name_outline (marked : String → Bool) (c : Constraint) :
    (c.outline marked).name = c.name := by
  unfold outline
  split <;> rfl

theorem map_outline_of_marked {cs : List Constraint} (h : ∀ c ∈ cs, marked c.name = true) :
    (cs.map fun c => c.outline marked) = cs := by
  rw [List.map_congr_left fun c hc => outline_of_marked (h c hc), List.map_id']

theorem eq_of_map_outline {cs ds : List Constraint} (hds : ∀ d ∈ ds, marked d.name = true)
    (h : (cs.map fun c => c.outline marked) = ds) : cs = ds := by
  rw [← h]
  refine (map_outline_of_marked fun c hc => ?_).symm
  have hmarked := hds (c.outline marked) (h ▸ List.mem_map_of_mem hc)
  rwa [name_outline] at hmarked

end Constraint

namespace Bone

variable {b b' : Bone} {cs : List Constraint}

theorem outline_updateFirst {name : String} {f : Constraint → Constraint}
    (hf : ∀ c, c.name = name → (f c).outline marked = c.outline marked) (cs : List Constraint) :
    ((updateFirst name f cs).map fun c => c.outline marked) = cs.map fun c => c.outline marked := by
  induction cs with
  | nil => rfl
  | cons c r ih =>
    rw [updateFirst]
    split
    · rename_i hname
      rw [List.map_cons, List.map_cons, hf c hname]
    · rw [List.map_cons, List.map_cons, ih]

theorem outline_write? {selectors : List Selector} (hw : b.write? selectors x = some b')
    (h : ∀ name, Path.constraintIn selectors = some name → marked name = false) :
    b'.outline marked = b.outline marked := by
  obtain ⟨-, -, rfl⟩ | ⟨name, part, c, c', rfl, hc, hset, rfl⟩ | ⟨-, -, -, -, -, rfl⟩ :=
    write?_cases hw
  · rfl
  · have hname : marked name = false := h name (by simp [Path.constraintIn])
    have hc' : c'.name = name := by
      rw [Constraint.name_set? hset]
      simpa using List.find?_some hc
    apply outline_updateFirst
    rintro d rfl
    rw [Constraint.outline_of_unmarked hname, Constraint.outline_of_unmarked (hc' ▸ hname), hc']
  · rfl

theorem constraints_of_outline (hcs : ∀ c ∈ cs, marked c.name = true)
    (h : b'.outline marked = b.outline marked ++ cs) :
    ∃ others, b'.constraints = others ++ cs ∧ others.map (·.name) = b.constraintNames := by
  obtain ⟨others, last, hsplit, hothers, hlast⟩ := List.map_eq_append_iff.mp h
  have hnames : ∀ ds : List Constraint,
      (ds.map fun c => c.outline marked).map (·.name) = ds.map (·.name) := fun ds => by
    rw [List.map_map]
    exact List.map_congr_left fun c _ => c.name_outline marked
  refine ⟨others, ?_, ?_⟩
  · rw [hsplit, Constraint.eq_of_map_outline hcs hlast]
  · rw [← hnames others, hothers]
    exact hnames b.constraints

end Bone

theorem Armature.outline_updateBone {a : Armature} {bone : String} {f : Bone → Bone}
    (hf : ∀ b, a.bones.get? bone = some b → (f b).outline marked = b.outline marked) :
    (a.updateBone bone f).outline marked = a.outline marked :=
  Table.map_update a.bones bone f (fun _ b => b.outline marked) hf

theorem Object.outline_write {o o' : Object} {name : String} {path : Path}
    (hw : o.write name path x = .ok o') (h : path.Avoids marked) :
    o'.armature.map (·.outline marked) = o.armature.map (·.outline marked) := by
  obtain ⟨-, -, rfl⟩ | ⟨-, -, -, -, -, rfl⟩ | ⟨bone, rest, a, b, b', hselectors, ha,
    hb, hb', rfl⟩ := write_cases hw
  · rfl
  · rfl
  · have hrest : path.constraint? = Path.constraintIn rest := by
      simp [Path.constraint?, hselectors, Path.constraintIn]
    have hbone := Bone.outline_write? hb' fun name hname => h name (hrest.trans hname)
    rw [ha, Option.map_some, Option.map_some]
    congr 1
    apply Armature.outline_updateBone
    intro b₁ hb₁
    rw [hbone, Option.some.inj (hb.symm.trans hb₁)]

namespace Scene

variable {s s' : Scene} {o : Object} {rig : String} {d : Driver} {ds : List Driver}

def outline (marked : String → Bool) (rig : String) (s : Scene) :
    Except Fault (Table (List Constraint)) :=
  (s.armature rig).map (·.outline marked)

theorem outline_setObject {o' : Object} (ho : s.object rig = .ok o)
    (h : o'.armature.map (·.outline marked) = o.armature.map (·.outline marked)) :
    (s.setObject rig o').outline marked rig = s.outline marked rig := by
  rw [outline, outline, armature, armature, object_setObject, ho]
  cases ha : o.armature <;> cases ha' : o'.armature <;> simp_all [Except.map]

theorem outline_writeProperty {path : Path} (hw : s.writeProperty rig path x = .ok s')
    (h : path.Avoids marked) : s'.outline marked rig = s.outline marked rig := by
  obtain ⟨o, o', ho, hwrite, rfl⟩ := writeProperty_cases hw
  exact outline_setObject ho (Object.outline_write hwrite h)

theorem outline_runDriver (s : Scene) (h : d.dataPath.Avoids marked) :
    (runDriver rig s d).2.outline marked rig = s.outline marked rig := by
  obtain ⟨e, -, hd⟩ | ⟨x, e, -, -, hd⟩ | ⟨x, s', -, hw, hd⟩ := runDriver_outcome rig s d
  · rw [hd]
  · rw [hd]
  · rw [hd]
    exact outline_writeProperty hw h

/-- A run of drivers that avoid the marked names keeps the outline. -/
theorem outline_runDrivers (s : Scene) (h : ∀ d ∈ ds, d.dataPath.Avoids marked) :
    (runDrivers rig ds s).2.outline marked rig = s.outline marked rig := by
  induction ds generalizing s with
  | nil => rfl
  | cons d r ih =>
    obtain ⟨hd, hr⟩ := List.forall_mem_cons.mp h
    exact (ih (runDriver rig s d).2 hr).trans (outline_runDriver s hd)

end Scene

theorem Network.outline_evaluate {s : Scene} {o : Object} {rig : String} (l : Library)
    (ho : s.object rig = .ok o) (h : ∀ d ∈ o.animationOrNew.drivers, d.dataPath.Avoids marked) :
    ∃ outputs s' l', evaluate rig l s = .ok (outputs, s', l') ∧
      s'.outline marked rig = s.outline marked rig := by
  have hrun : s.evaluateDrivers rig = .ok (s.runDrivers rig o.animationOrNew.drivers) := by
    rw [Scene.evaluateDrivers, ho]
  simp only [evaluate, hrun]
  exact ⟨_, _, _, rfl, Scene.outline_runDrivers s h⟩

end PoseRig
