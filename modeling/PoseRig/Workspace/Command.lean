import PoseRig.Workspace.Basic

/-!
# Commands

The changes that can be made to a workspace, and what each does. A command that fails leaves the
workspace as it was, except those that switch the active object, leave action edit or rebuild the
network: what these have done before the fault stays.
-/

set_option autoImplicit false

namespace PoseRig

inductive LibraryCommand where
  | push (pose : Pose)
  | add
  | remove (index : Nat)
  | clear
  | duplicate (index : Nat)
  | addOpposite (index : Nat)
  | move (direction : MoveDirection)
  | select (index : Nat)
  | setPose (index : Nat) (pose : Pose)
  | clearActionRefs (action : String)
  | renameActionRefs (action new : String)
  | addBoneEntry (index : Nat)
  | removeBoneEntry (index entry : Nat)
  | removeAllBones (index : Nat)
  | addSelectedBones (index : Nat)
  | removeSelectedBones (index : Nat)
  | addFromAction (index : Nat)
  | setActiveBoneAsTarget (index : Nat)

inductive SceneCommand where
  | addObject (name : String) (object : Object)
  | removeObject (name : String)
  | addAction (name : String) (action : Action)
  | removeAction (name : String)
  | renameAction (name new : String)
  | assignAction (object : String) (action : Option String)
  | addCurve (action : String) (curve : Curve)
  | setMode (mode : Mode)
  | setActiveObject (name : String)
  | switchActiveObject (name : String)
  | clearActiveObject
  | setAutoKey (value : Bool)
  | addBone (object name : String) (bone : Bone)
  | removeBone (object name : String)
  | setTransform (object : String) (bone : Option String) (transform : Transform)
  | setSelect (object bone : String) (value : Bool)
  | setActiveBone (object : String) (bone : Option String)
  | addConstraint (object bone : String) (constraint : Constraint)
  | removeConstraints (object bone part : String)
  | addDriver (object : String) (driver : Driver)
  | removeDriver (object : String) (path : Path)
  | evaluateDrivers (object : String)
  | write (object : String) (path : Path) (value : Scalar)

/-- Changes that concern the rig and its library together. -/
inductive RigCommand where
  | selectPoseBones (index : Nat)
  | selectActionBones (index : Nat)
  | selectTargetBone (index : Nat)
  | newAction (index : Nat)
  | duplicateAction (index : Nat)
  | deleteAction (index : Nat)
  | renameAction (index : Nat) (name : String)
  | removeFlatCurves (index : Nat)
  | compile (index : Nat)
  | compilePose (pose : Pose)
  | compileAll
  | evaluate
  | purge
  | setEnabled (enabled : Bool)
  | enterEdit (index : Nat)
  | leaveEdit
  | toggleEdit (index : Nat)

inductive Command where
  | library (c : LibraryCommand)
  | scene (c : SceneCommand)
  | rig (c : RigCommand)
  | copyTo (mode : CopyMode)
  | swapLibraries
  | setPreferences (prefs : Preferences)
  | setRig (name : String)

namespace Workspace

def onLibrary (w : Workspace) : LibraryCommand → Outcome
  | .push p => w.settleIndex (.ok (w.library.push p))
  | .add => w.settleIndex (.ok (w.library.add w.prefs))
  | .remove index => w.settleLibrary (fun p => .name p.name) (w.library.remove index)
  | .clear => done { w with library := .clear }
  | .duplicate index => w.settleIndex (w.library.duplicate index)
  | .addOpposite index => w.settleIndex (w.library.addOpposite w.scene w.rig w.prefs index)
  | .move direction => done { w with library := w.library.move direction }
  | .select index => done { w with library := { w.library with index := index } }
  | .setPose index p =>
    w.settleLibrary (fun _ => .done) ((w.library.get index).map fun _ =>
      ((), w.library.setPose index p))
  | .clearActionRefs action => done { w with library := w.library.retarget action none }
  | .renameActionRefs action new => done { w with library := w.library.retarget action (some new) }
  | .addBoneEntry index => w.settleLibrary .number (w.library.addBoneEntry index)
  | .removeBoneEntry index entry => w.settleLibrary .entry (w.library.removeBoneEntry index entry)
  | .removeAllBones index => w.settleLibrary .number (w.library.removeAllBones index)
  | .addSelectedBones index =>
    w.settleLibrary .number (w.library.addSelectedBones w.scene w.rig index)
  | .removeSelectedBones index =>
    w.settleLibrary .number (w.library.removeSelectedBones w.scene w.rig index)
  | .addFromAction index => w.settleLibrary .number (w.library.addFromAction w.scene w.rig index)
  | .setActiveBoneAsTarget index =>
    w.settleLibrary (fun _ => .done)
      ((w.library.setActiveBoneAsTarget w.scene w.rig index).map fun l => ((), l))

def onScene (w : Workspace) : SceneCommand → Outcome
  | .addObject name o => done { w with scene := w.scene.setObject name o }
  | .removeObject name =>
    (.ok (.flag (w.scene.hasObject name)), { w with scene := w.scene.removeObject name })
  | .addAction name a => w.settleScene .name (.ok (w.scene.addAction name a))
  | .removeAction name =>
    (.ok (.flag (w.scene.hasAction name)), { w with scene := w.scene.removeAction name })
  | .renameAction name new => w.settleScene .name (w.scene.renameAction name new)
  | .assignAction object action => w.settleSceneOnly (w.scene.assignAction object action)
  | .addCurve action c => w.settleSceneOnly (w.scene.addCurve action c)
  | .setMode mode => done { w with scene := { w.scene with mode := mode } }
  | .setActiveObject name => w.settleSceneOnly (w.scene.setActiveObject name)
  | .switchActiveObject name => w.settleSwitch (w.scene.switchActiveObject name)
  | .clearActiveObject => done { w with scene := { w.scene with activeObject := none } }
  | .setAutoKey value => done { w with scene := { w.scene with autoKey := value } }
  | .addBone object name b => w.settleSceneOnly (w.scene.addBone object name b)
  | .removeBone object name => w.settleScene .flag (w.scene.removeBone object name)
  | .setTransform object bone t => w.settleSceneOnly (w.scene.setTransform object bone t)
  | .setSelect object bone value => w.settleSceneOnly (w.scene.setSelect object bone value)
  | .setActiveBone object bone => w.settleSceneOnly (w.scene.setActiveBone object bone)
  | .addConstraint object bone c => w.settleScene .name (w.scene.addConstraint object bone c)
  | .removeConstraints object bone part =>
    w.settleScene .names (w.scene.removeConstraints object bone fun n => contains n part)
  | .addDriver object d =>
    w.settleScene .name ((w.scene.addDriver object d).map fun s => (d.dataPath.text, s))
  | .removeDriver object path => w.settleScene .flag (w.scene.removeDriver object path)
  | .evaluateDrivers object => w.settleScene .outputs (w.scene.evaluateDrivers object)
  | .write object path value => w.settleSceneOnly (w.scene.writeProperty object path value)

def onRig (w : Workspace) : RigCommand → Outcome
  | .selectPoseBones index =>
    w.settleScene .number (w.scene.selectPoseBones w.rig w.library index)
  | .selectActionBones index =>
    w.settleScene .number (w.scene.selectActionBones w.rig w.library index)
  | .selectTargetBone index => w.settleSwitch (w.scene.selectTargetBone w.library index)
  | .newAction index => w.settleBoth .name (w.library.newAction w.scene w.prefs index)
  | .duplicateAction index => w.settleBoth .name (w.library.duplicateAction w.scene index)
  | .deleteAction index => w.settleBoth .name (w.library.deleteAction w.scene index)
  | .renameAction index name => w.settleBoth .name (w.library.renameAction w.scene index name)
  | .removeFlatCurves index => w.settleScene .report (w.library.removeFlatCurves w.scene index)
  | .compile index =>
    match w.library.get index with
    | .error e => (.error e, w)
    | .ok p => w.settleScene .report (Network.compile w.prefs w.rig w.library p w.scene)
  | .compilePose p => w.settleScene .report (Network.compile w.prefs w.rig w.library p w.scene)
  | .compileAll =>
    w.settleEdit (Network.compileAll w.prefs w.rig w.library w.session w.scene)
  | .evaluate => w.settleBoth .outputs (Network.evaluate w.rig w.library w.scene)
  | .purge => w.settleScene .purged (Network.purge w.prefs w.rig w.scene)
  | .setEnabled enabled =>
    w.settleScene .number (Network.setEnabled w.prefs w.rig enabled w.scene)
  | .enterEdit index =>
    match Edit.enter w.prefs w.rig w.library index w.session w.scene with
    | .error e => (.error e, w)
    | .ok (report, session, s) => (.ok (.report report), { w with session := session, scene := s })
  | .leaveEdit => w.settleEdit (Edit.leave w.prefs w.rig w.session w.scene)
  | .toggleEdit index =>
    w.settleEdit (Edit.toggle w.prefs w.rig w.library index w.session w.scene)

def run (w : Workspace) : Command → Outcome
  | .library c => w.onLibrary c
  | .scene c => w.onScene c
  | .rig c => w.onRig c
  | .copyTo mode =>
    (.ok (.number (w.library.copied mode).length),
      { w with other := w.library.copyTo w.other mode })
  | .swapLibraries => done { w with library := w.other, other := w.library }
  | .setPreferences prefs => done { w with prefs := prefs }
  | .setRig name => done { w with rig := name }

/-- The workspace after a list of commands, whatever each answered. -/
def runAll (w : Workspace) : List Command → Workspace
  | [] => w
  | c :: r => runAll (w.run c).2 r

end Workspace

end PoseRig
