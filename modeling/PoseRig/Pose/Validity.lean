import PoseRig.Pose.Basic
import PoseRig.Scene.Property
import PoseRig.Property.PathReader

/-!
# Validity of poses

A combo needs a name only; a simple pose needs a target that exists, and a driving bone's name or a
path that resolves on the target.
-/

set_option autoImplicit false

namespace PoseRig

inductive Invalid where
  | missingName
  | missingTarget
  | targetNotFound (target : String)
  | missingBone
  | badPath (e : PathError)
  | unresolved (e : ResolveError)
  deriving DecidableEq, Repr

def Invalid.message : Invalid → String
  | .missingName => "pose has no name"
  | .missingTarget => "pose has no target"
  | .targetNotFound target => s!"target '{target}' does not exist"
  | .missingBone => "pose has no target bone"
  | .badPath e => "property path does not resolve: " ++ e.message
  | .unresolved e => "property path does not resolve: " ++ e.message

namespace Pose

def inputInvalid? (p : Pose) (o : Object) : Option Invalid :=
  match p.targetKind with
  | .boneTransform => if p.bone = "" then some .missingBone else none
  | .sceneProperty =>
    match Path.parse p.dataPath with
    | .error e => some (.badPath e)
    | .ok path =>
      match path.resolve o.source with
      | .error e => some (.unresolved e)
      | .ok _ => none

def invalid? (p : Pose) (s : Scene) : Option Invalid :=
  if p.name = "" then some .missingName
  else
    match p.kind with
    | .combo => none
    | .simple =>
      match p.usableTarget? with
      | none => some .missingTarget
      | some t =>
        match s.objects.get? t with
        | none => some (.targetNotFound t)
        | some o => p.inputInvalid? o

end Pose

end PoseRig
