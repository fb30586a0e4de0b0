import PoseRig.Network.Names
import PoseRig.Scene.Basic

/-!
# Removing and toggling compiled things

Purging a rig removes the constraints with a compiled name, the drivers bound through such a
constraint or onto a pose influence, and the custom properties with a compiled name.
-/

set_option autoImplicit false

namespace PoseRig

structure PurgeCounts where
  constraints : Nat
  drivers : Nat
  properties : Nat
  deriving DecidableEq, Repr

namespace PurgeCounts

def isZero (c : PurgeCounts) : Bool := c.constraints == 0 && c.drivers == 0 && c.properties == 0

end PurgeCounts

namespace Preferences

/-- Whether a driver on this path was compiled. -/
def isCompiledPath (p : Preferences) (path : Path) : Bool :=
  path.influenceTarget?.isSome || path.constraint?.any p.isCompiled

end Preferences

namespace Bone

def setEnabled (prefs : Preferences) (enabled : Bool) (b : Bone) : Bone :=
  { b with
    constraints := b.constraints.map fun c =>
      if prefs.isCompiled c.name then { c with enabled := enabled } else c }

end Bone

namespace Object

def purge (prefs : Preferences) (o : Object) : Object :=
  { o with
    animation := o.animation.map fun a => a.removeWhere prefs.isCompiledPath
    properties := o.properties.filter fun name _ => !prefs.isCompiled name
    armature := o.armature.map fun a => a.mapBones fun _ b => b.removeConstraints prefs.isCompiled }

def compiledConstraints (prefs : Preferences) (a : Armature) : Nat :=
  (a.bones.values.flatMap fun b => b.namesWhere prefs.isCompiled).length

def purgeCounts (prefs : Preferences) (o : Object) : PurgeCounts where
  constraints := (o.armature.map (compiledConstraints prefs)).getD 0
  drivers := (o.animation.map fun a => a.countWhere prefs.isCompiledPath).getD 0
  properties := (o.properties.names.filter prefs.isCompiled).length

end Object

namespace Network

def purge (prefs : Preferences) (rig : String) (s : Scene) : Except Fault (PurgeCounts × Scene) :=
  match s.object rig with
  | .error e => .error e
  | .ok o => .ok (o.purgeCounts prefs, s.updateObject rig (·.purge prefs))

def setEnabled (prefs : Preferences) (rig : String) (enabled : Bool) (s : Scene) :
    Except Fault (Nat × Scene) :=
  match s.armature rig with
  | .error e => .error e
  | .ok a =>
    .ok (Object.compiledConstraints prefs a,
      s.updateArmature rig fun a => a.mapBones fun _ b => b.setEnabled prefs enabled)

end Network

end PoseRig
