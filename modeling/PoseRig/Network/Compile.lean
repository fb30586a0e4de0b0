import PoseRig.Network.Blend
import PoseRig.Network.Names
import PoseRig.Report

/-!
# Compiling poses

A compiled pose is one constraint on each of its bones, a driver on the evaluation time of each such
constraint and on the influence of the pose, and a custom property named like the constraint. A
constraint whose name is taken on a bone gets a numbered name, and its driver follows it.
-/

set_option autoImplicit false

namespace PoseRig

namespace Pose

def constraintFor (p : Pose) (name : String) (evalTime : Scalar) (e : BoneEntry) : Constraint where
  name := name
  enabled := true
  action := p.action
  frameStart := p.startFrame
  frameEnd := p.endFrame
  mix := p.mix
  influence := e.influence
  useEvalTime := true
  evalTime := evalTime

end Pose

namespace Network

structure Attachment where
  report : Report
  placed : List (String × String)
  armature : Armature

/-- Puts a constraint of this name on the bone of each entry in turn; bones that are missing are
reported. -/
def place (p : Pose) (name : String) (evalTime : Scalar) : List BoneEntry → Armature → Attachment
  | [], a => ⟨{}, [], a⟩
  | e :: r, a =>
    match a.bones.get? e.bone with
    | none =>
      let rest := place p name evalTime r a
      { rest with
        report :=
          .warning ("pose '" ++ p.name ++ "': bone '" ++ e.bone ++ "' not found, skipped") ++
          rest.report }
    | some b =>
      let a := a.updateBone e.bone fun b => b.addConstraint (p.constraintFor name evalTime e)
      let rest := place p name evalTime r a
      { rest with placed := (e.bone, b.freshName name) :: rest.placed }

def bindBlend (mode : BlendMode) (inputs : List Input) (o : Object) (path : Path) : Object :=
  match blendDriver? mode inputs path with
  | none => o
  | some d => o.addDriver d

def blendPaths (pose : String) (placed : List (String × String)) : List Path :=
  placed.map (fun b => Path.evalTime b.1 b.2) ++ [Path.influence pose]

def inputsReport (p : Pose) (inputs : List Input) : Report :=
  if inputs.isEmpty then
    .warning ("pose '" ++ p.name ++ "' has no driving inputs, no drivers created")
  else {}

def install (prefs : Preferences) (inputs : List Input) (p : Pose) (a : Armature) (o : Object) :
    Report × Object :=
  let name := prefs.constraintName p.name
  let attached := place p name 0 p.bones a
  let placedOn := { o with armature := some attached.armature }.setProperty name (.float 0)
  (attached.report ++ inputsReport p inputs,
    (blendPaths p.name attached.placed).foldl (bindBlend prefs.blendMode inputs) placedOn)

/-- Compiles one pose onto the rig. Compiling it again without a purge stacks numbered
constraints. -/
def compile (prefs : Preferences) (rig : String) (l : Library) (p : Pose) (s : Scene) :
    Except Fault (Report × Scene) :=
  match l.inputs p with
  | .error e => .error e
  | .ok inputs =>
    match s.object rig, s.armature rig with
    | .error e, _ => .error e
    | _, .error e => .error e
    | .ok o, .ok a =>
      let (report, o) := install prefs inputs p a o
      .ok (report, s.setObject rig o)

end Network

end PoseRig
