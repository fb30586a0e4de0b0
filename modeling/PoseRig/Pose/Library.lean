import PoseRig.Pose.Basic
import PoseRig.Preferences
import PoseRig.Scene.Basic

/-!
# Pose libraries

An ordered list of poses with a selected position. Poses are referred to by name, the first of a
name counting, and every operation that adds one gives it a free name.
-/

set_option autoImplicit false

namespace PoseRig

inductive MoveDirection where
  | up
  | down
  | top
  | bottom
  deriving DecidableEq, Repr

instance : Labelled MoveDirection where
  all := [.up, .down, .top, .bottom]
  label
    | .up => "UP"
    | .down => "DOWN"
    | .top => "TOP"
    | .bottom => "BOTTOM"

inductive CopyMode where
  | all
  | active
  deriving DecidableEq, Repr, Inhabited

instance : Labelled CopyMode where
  all := [.all, .active]
  label
    | .all => "ALL"
    | .active => "ACTIVE"

structure Library where
  poses : List Pose := []
  index : Nat := 0
  bonesIndex : Nat := 0
  deriving Repr, Inhabited

namespace Library

def size (l : Library) : Nat := l.poses.length

def names (l : Library) : List String := l.poses.map (·.name)

def find? (l : Library) (name : String) : Option Pose := l.poses.find? fun p => p.name == name

def position? (l : Library) (name : String) : Option Nat :=
  l.poses.findIdx? fun p => p.name == name

def get (l : Library) (index : Nat) : Except Fault Pose :=
  match l.poses[index]? with
  | some p => .ok p
  | none => .error (.poseIndex index l.size)

def active? (l : Library) : Option Pose := l.poses[l.index]?

def freshName (l : Library) (name : String) : String := Naming.fresh l.names name

def setPose (l : Library) (index : Nat) (p : Pose) : Library :=
  { l with poses := l.poses.set index p }

def push (l : Library) (p : Pose) : Library :=
  { l with poses := l.poses ++ [{ p with name := l.freshName p.name }], index := l.size }

def add (l : Library) (prefs : Preferences) : Library := l.push (.ofName prefs.defaultName)

/-- Removes a pose and selects the one before it, or the first. -/
def remove (l : Library) (index : Nat) : Except Fault (Pose × Library) :=
  match l.get index with
  | .error e => .error e
  | .ok p =>
    let poses := l.poses.eraseIdx index
    .ok (p, { l with poses := poses, index := min (index - 1) (poses.length - 1) })

def clear : Library := {}

def insertAfter (l : Library) (index : Nat) (p : Pose) : Library :=
  { l with poses := l.poses.insertIdx (index + 1) p, index := index + 1 }

/-- Puts a copy of a pose under a free name after it; the action is shared. -/
def duplicate (l : Library) (index : Nat) : Except Fault Library :=
  match l.get index with
  | .error e => .error e
  | .ok p => .ok (l.insertAfter index { p.duplicate with name := l.freshName p.name })

def moveTarget? (l : Library) (direction : MoveDirection) : Option Nat :=
  let last := l.size - 1
  if l.size ≤ l.index then none
  else
    match direction with
    | .up => if 0 < l.index then some (l.index - 1) else none
    | .down => if l.index < last then some (l.index + 1) else none
    | .top => if 0 < l.index then some 0 else none
    | .bottom => if l.index < last then some last else none

def move (l : Library) (direction : MoveDirection) : Library :=
  match l.moveTarget? direction, l.poses[l.index]? with
  | some target, some p =>
    { l with poses := (l.poses.eraseIdx l.index).insertIdx target p, index := target }
  | _, _ => l

def copied (l : Library) (mode : CopyMode) : List Pose :=
  match mode with
  | .all => l.poses
  | .active => l.active?.toList

/-- Adds copies of this library's poses at the end of another one. -/
def copyTo (l target : Library) (mode : CopyMode) : Library := (l.copied mode).foldl push target

def retarget (l : Library) (old : String) (new : Option String) : Library :=
  { l with poses := l.poses.map (·.retarget old new) }

def updateFirst (name : String) (f : Pose → Pose) : List Pose → List Pose
  | [] => []
  | p :: r => if p.name = name then f p :: r else p :: updateFirst name f r

def setInfluence (l : Library) (name : String) (x : Scalar) : Library :=
  { l with poses := updateFirst name (fun p => { p with influence := x }) l.poses }

end Library

end PoseRig
