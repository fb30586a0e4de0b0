import PoseRig.Pose.Library
import PoseRig.Property.PathReader

/-!
# Driving inputs

The inputs of a simple pose are its one channel or property, those of a combo the inputs of its
first part followed by those of its second. Parts that name no pose are skipped, as are simple poses
without a usable target or path. A combo that reaches itself has no inputs but a cycle, given as the
chain of names from the start to the repeated one; the first cycle met ends the search.
-/

set_option autoImplicit false

namespace PoseRig

inductive InputSource where
  | channel (bone : String) (channel : Channel) (space : Space) (reading : RotationReading)
  | property (path : Path)
  deriving DecidableEq, Repr

structure Input where
  pose : String
  target : String
  source : InputSource
  low : Scalar
  high : Scalar
  deriving Repr

namespace Input

def reading? (i : Input) : Option RotationReading :=
  match i.source with
  | .channel _ c _ reading => if c.isRotation then some reading else none
  | .property _ => none

def isRotation (i : Input) : Bool := i.reading?.isSome

end Input

namespace Pose

def inputSource? (p : Pose) : Option InputSource :=
  match p.targetKind with
  | .boneTransform => some (.channel p.bone p.channel p.space p.reading)
  | .sceneProperty =>
    match Path.parse p.dataPath with
    | .ok path => some (.property path)
    | .error _ => none

def input? (p : Pose) : Option Input :=
  match p.usableTarget?, p.inputSource? with
  | some target, some source => some ⟨p.name, target, source, p.low, p.high⟩
  | _, _ => none

end Pose

namespace Library

/-- The pose that a part refers to; an empty name refers to none. -/
def part? (l : Library) (name : String) : Option Pose := if name = "" then none else l.find? name

def unvisited (l : Library) (path : List String) : Nat :=
  (l.poses.filter fun p => !path.contains p.name).length

theorem mem_of_find? {l : Library} {name : String} {p : Pose} (h : l.find? name = some p) :
    p ∈ l.poses ∧ p.name = name := by
  refine ⟨List.mem_of_find?_eq_some h, ?_⟩
  have := List.find?_some h
  simpa using this

theorem unvisited_lt {l : Library} {path : List String} {p : Pose} (hp : p ∈ l.poses)
    (hn : p.name ∉ path) : l.unvisited (path ++ [p.name]) < l.unvisited path := by
  have split : (l.poses.filter fun q => !(path ++ [p.name]).contains q.name) =
      (l.poses.filter fun q => !path.contains q.name).filter fun q => q.name != p.name := by
    rw [List.filter_filter]
    refine List.filter_congr fun q _ => ?_
    rw [Bool.eq_iff_iff]
    simp [and_comm]
  rw [unvisited, split]
  exact List.length_filter_lt_length_iff_exists.mpr ⟨p, by simp [hp, hn], by simp⟩

theorem mem_of_part? {l : Library} {part : String} {p : Pose} (h : l.part? part = some p) :
    p ∈ l.poses := by
  unfold part? at h
  split at h
  · simp at h
  · exact (mem_of_find? h).1

/-- The inputs of what a part refers to, reached along the combos named in `path`. -/
def partInputs (l : Library) (path : List String) (part : String) : Except Fault (List Input) :=
  match _h : l.part? part with
  | none => .ok []
  | some p =>
    match p.kind with
    | .simple => .ok p.input?.toList
    | .combo =>
      if _hn : p.name ∈ path then .error (.comboCycle (path ++ [p.name]))
      else do
        let first ← partInputs l (path ++ [p.name]) p.partA
        let second ← partInputs l (path ++ [p.name]) p.partB
        return first ++ second
termination_by l.unvisited path
decreasing_by all_goals exact unvisited_lt (mem_of_part? _h) _hn

theorem partInputs_eq (l : Library) (path : List String) (part : String) :
    l.partInputs path part =
      match l.part? part with
      | none => .ok []
      | some p =>
        match p.kind with
        | .simple => .ok p.input?.toList
        | .combo =>
          if p.name ∈ path then .error (.comboCycle (path ++ [p.name]))
          else do
            let first ← l.partInputs (path ++ [p.name]) p.partA
            let second ← l.partInputs (path ++ [p.name]) p.partB
            return first ++ second := by
  rw [partInputs]
  generalize l.part? part = o
  cases o <;> rfl

def inputs (l : Library) (p : Pose) : Except Fault (List Input) :=
  match p.kind with
  | .simple => .ok p.input?.toList
  | .combo => do
    let first ← l.partInputs [p.name] p.partA
    let second ← l.partInputs [p.name] p.partB
    return first ++ second

end Library

end PoseRig
