import PoseRig.Scene.Constraint
import PoseRig.Scene.Channel

/-!
# Poses

A pose plays a frame range of an action on some bones. A simple pose is driven by one bone channel
or property of its target; a combo is driven by all that drives its two parts, which are poses named
in the library. The influence is what evaluation last gave, so a copy does not take it over.
-/

set_option autoImplicit false

namespace PoseRig

inductive PoseKind where
  | simple
  | combo
  deriving DecidableEq, Repr, Inhabited

instance : Labelled PoseKind where
  all := [.simple, .combo]
  label
    | .simple => "SIMPLE"
    | .combo => "COMBO"

inductive TargetKind where
  | boneTransform
  | sceneProperty
  deriving DecidableEq, Repr, Inhabited

instance : Labelled TargetKind where
  all := [.boneTransform, .sceneProperty]
  label
    | .boneTransform => "BONE_TRANSFORM"
    | .sceneProperty => "SCENE_PROPERTY"

/-- A bone that a pose plays on, and the influence its constraint gets. -/
structure BoneEntry where
  bone : String := ""
  influence : Scalar := 1
  deriving BEq, Repr, Inhabited

structure Pose where
  name : String := ""
  build : Bool := true
  kind : PoseKind := .simple
  targetKind : TargetKind := .boneTransform
  target : Option String := none
  bone : String := ""
  dataPath : String := ""
  channel : Channel := ⟨.location, .x⟩
  space : Space := .local
  reading : RotationReading := .auto
  low : Scalar := 0
  high : Scalar := 1
  partA : String := ""
  partB : String := ""
  action : Option String := none
  startFrame : Int := 0
  endFrame : Int := 10
  mix : Mix := .beforeFull
  influence : Scalar := 0
  bones : List BoneEntry := []
  deriving BEq, Repr, Inhabited

namespace Pose

def ofName (name : String) : Pose := { name := name }

def ofChannel (name target bone : String) (channel : Channel) : Pose :=
  { name := name, target := some target, bone := bone, channel := channel }

def ofProperty (name target dataPath : String) : Pose :=
  { name := name, targetKind := .sceneProperty, target := some target, dataPath := dataPath }

def ofParts (name a b : String) : Pose := { name := name, kind := .combo, partA := a, partB := b }

def withBones (p : Pose) (bones : List String) : Pose :=
  { p with bones := bones.map fun b => { bone := b } }

def isCombo (p : Pose) : Bool := p.kind == .combo

def boneNames (p : Pose) : List String := p.bones.map (·.bone)

def hasBone (p : Pose) (bone : String) : Bool := p.boneNames.contains bone

def duplicate (p : Pose) : Pose := { p with influence := 0 }

def usableTarget? (p : Pose) : Option String := p.target.filter fun t => t != ""

def retarget (old : String) (new : Option String) (p : Pose) : Pose :=
  if p.action = some old then { p with action := new } else p

end Pose

end PoseRig
