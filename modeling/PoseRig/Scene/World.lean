import PoseRig.Scene.Basic

/-!
# World placements and channel values

The placement of a bone is that of its object followed by the local placements along its chain of
parents, the topmost first. A chain is cut when it is one longer than there are bones, which happens
only where parents form a loop.
-/

set_option autoImplicit false

namespace PoseRig

def Bone.localPlacement (b : Bone) : Placement :=
  (Placement.ofOffset b.head).compose b.transform.placement

namespace Armature

/-- The local placements from a bone up to the top of its chain, of at most one more than `more`
bones; the name that is no bone when the chain leads to one. -/
def chain (bones : Table Bone) : Nat → String → Except String (List Placement)
  | more, name =>
    match bones.get? name with
    | none => .error name
    | some b =>
      match more, b.parent with
      | n + 1, some parent =>
        match chain bones n parent with
        | .ok ps => .ok (b.localPlacement :: ps)
        | .error missing => .error missing
      | _, _ => .ok [b.localPlacement]

end Armature

namespace Scene

def worldPlacement (s : Scene) (object bone : String) : Except Fault Placement :=
  match s.object object with
  | .error e => .error e
  | .ok o =>
    if bone = "" then .ok o.transform.placement
    else
      match s.armature object with
      | .error e => .error e
      | .ok a =>
        match Armature.chain a.bones a.bones.size bone with
        | .error missing => .error (.boneNotFound object missing)
        | .ok locals =>
          .ok (locals.foldr (fun one above => above.compose one) o.transform.placement)

def localTransform (s : Scene) (object bone : String) : Except Fault Transform :=
  if bone = "" then (s.object object).map (·.transform) else (s.bone object bone).map (·.transform)

def authoredAngles (t : Transform) : Option (EulerOrder × Vec) :=
  t.rotationMode.eulerOrder?.map fun order => (order, t.rotationEuler)

/-- The placement that a channel is read from, with the authored angles when they count. -/
def sampled (s : Scene) (object bone : String) (space : Space) :
    Except Fault (Placement × Option (EulerOrder × Vec)) :=
  match s.localTransform object bone with
  | .error e => .error e
  | .ok t =>
    match space with
    | .local => .ok (t.placement, authoredAngles t)
    | .world => (s.worldPlacement object bone).map fun p => (p, none)

def channelValue (s : Scene) (object bone : String) (channel : Channel) (space : Space)
    (reading : RotationReading) : Except Fault Scalar :=
  match s.sampled object bone space with
  | .error e => .error e
  | .ok (p, authored) =>
    match channel.kind with
    | .location => .ok (p.offset.get channel.axis)
    | .scale => .ok (p.scale.get channel.axis)
    | .rotation => .ok (reading.component p.rotation authored channel.axis)

end Scene

end PoseRig
