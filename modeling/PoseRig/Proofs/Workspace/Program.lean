import PoseRig.Workspace.Command

/-!
# Commands step by step

A program reads and changes a workspace one step after the other, and what its steps have changed
before one of them faults stays changed. The programs here do what commands do with the changes and
the faults in the order in which they come about: whatever a step reaches for again it may find
missing, although an earlier step has found it.
-/

set_option autoImplicit false

namespace PoseRig

/-- Steps on a workspace. What was changed before a fault stays. -/
def Program (α : Type) := Workspace → Except Fault α × Workspace

namespace Program

variable {α β : Type}

instance : Monad Program where
  pure a := fun w => (.ok a, w)
  bind x f := fun w =>
    match x w with
    | (.ok a, w') => f a w'
    | (.error e, w') => (.error e, w')

def here : Program Workspace := fun w => (.ok w, w)

def fault (e : Fault) : Program α := fun w => (.error e, w)

def look (f : Workspace → Except Fault α) : Program α := fun w => (f w, w)

def change (f : Workspace → Workspace) : Program Unit := fun w => (.ok (), f w)

def changeScene (f : Scene → Scene) : Program Unit := change fun w => { w with scene := f w.scene }

def changeLibrary (f : Library → Library) : Program Unit :=
  change fun w => { w with library := f w.library }

def succeeds (x : Program Unit) : Program Bool := fun w =>
  match x w with
  | (.ok _, w') => (.ok true, w')
  | (.error _, w') => (.ok false, w')

def object (name : String) : Program Object := look fun w => w.scene.object name

def armature (name : String) : Program Armature := look fun w => w.scene.armature name

def pose (index : Nat) : Program Pose := look fun w => w.library.get index

def action (name : String) : Program Action :=
  look fun w =>
    match w.scene.actions.get? name with
    | some a => .ok a
    | none => .error (.actionNotFound name)

section

variable (w : Workspace)

@[simp] theorem pure_apply (a : α) : (pure a : Program α) w = (.ok a, w) := rfl

@[simp] theorem bind_apply (x : Program α) (f : α → Program β) :
    (x >>= f) w =
      match x w with
      | (.ok a, w') => f a w'
      | (.error e, w') => (.error e, w') := rfl

@[simp] theorem here_apply : here w = (.ok w, w) := rfl

@[simp] theorem fault_apply (e : Fault) : (fault e : Program α) w = (.error e, w) := rfl

@[simp] theorem look_apply (f : Workspace → Except Fault α) : look f w = (f w, w) := rfl

@[simp] theorem change_apply (f : Workspace → Workspace) : change f w = (.ok (), f w) := rfl

@[simp] theorem changeScene_apply (f : Scene → Scene) :
    changeScene f w = (.ok (), { w with scene := f w.scene }) := rfl

@[simp] theorem changeLibrary_apply (f : Library → Library) :
    changeLibrary f w = (.ok (), { w with library := f w.library }) := rfl

@[simp] theorem object_apply (name : String) : object name w = (w.scene.object name, w) := rfl

@[simp] theorem armature_apply (name : String) : armature name w = (w.scene.armature name, w) := rfl

@[simp] theorem pose_apply (index : Nat) : pose index w = (w.library.get index, w) := rfl

end

def addAction (name : String) (a : Action) : Program String := fun w =>
  let (final, s) := w.scene.addAction name a
  (.ok final, { w with scene := s })

def renameAction (old new : String) : Program String :=
  if old = new then return old
  else do
    let a ← action old
    changeScene fun s => { s with actions := s.actions.erase old }
    let final ← addAction new a
    changeScene fun s => s.retargetActions old (some final)
    return final

def bindAction (object : String) (kind : ObjectKind) (name : String) : Program Unit := do
  let a ← action name
  match a.root with
  | none =>
    changeScene fun s =>
      { s with actions := s.actions.update name fun a => { a with root := some kind } }
  | some root =>
    if root = kind then return () else fault (.incompatibleAction object name root kind)

def assignAction (name : String) (action : Option String) : Program Unit := do
  let o ← object name
  action.forM (bindAction name o.kind)
  let _ ← object name
  changeScene fun s => s.updateObject name (·.setActiveAction action)

def writeProperty (name : String) (path : Path) (x : Scalar) : Program Unit := do
  let o ← object name
  let written ← look fun _ => o.write name path x
  changeScene fun s => s.setObject name written

def runDriver (name : String) (d : Driver) : Program DriverOutput := do
  let w ← here
  match w.scene.driverValue d with
  | .error _ => return ⟨d.dataPath, none, false⟩
  | .ok x => do
    let applied ← succeeds (writeProperty name d.dataPath x)
    return ⟨d.dataPath, some x, applied⟩

def runDrivers (name : String) : List Driver → Program (List DriverOutput)
  | [] => return []
  | d :: r => do
    let output ← runDriver name d
    let outputs ← runDrivers name r
    return output :: outputs

def remove (index : Nat) : Program Answer := do
  let p ← pose index
  changeLibrary fun l => { l with poses := l.poses.eraseIdx index }
  changeLibrary fun l => { l with index := min (index - 1) (l.poses.length - 1) }
  return .name p.name

def insertAfter (index : Nat) (f : Workspace → Pose → Pose) : Program Answer := do
  let p ← pose index
  let w ← here
  changeLibrary fun l => l.insertAfter index (f w p)
  return .number (index + 1)

def setBones (index : Nat) (bones : List BoneEntry) (selected : Nat) : Program Unit := do
  let p ← pose index
  changeLibrary fun l => l.setPose index { p with bones := bones }
  changeLibrary fun l => { l with bonesIndex := selected }

def addBoneEntry (index : Nat) : Program Answer := do
  let p ← pose index
  setBones index (p.bones ++ [({} : BoneEntry)]) p.bones.length
  return .number p.bones.length

def removeBoneEntry (index entry : Nat) : Program Answer := do
  let p ← pose index
  match p.bones[entry]? with
  | none => fault (.boneIndex entry p.bones.length)
  | some b => do
    setBones index (p.bones.eraseIdx entry) (entry - 1)
    return .entry b

def removeAllBones (index : Nat) : Program Answer := do
  let p ← pose index
  setBones index [] 0
  return .number p.bones.length

def addBones (index : Nat) (bones : List String) : Program Answer := do
  let p ← pose index
  let p' := p.addBones bones
  setBones index p'.bones (p'.bones.length - 1)
  return .number (p'.bones.length - p.bones.length)

def addSelectedBones (index : Nat) : Program Answer := do
  let w ← here
  let a ← armature w.rig
  addBones index a.selected

def removeSelectedBones (index : Nat) : Program Answer := do
  let w ← here
  let a ← armature w.rig
  let p ← pose index
  let bones := p.bones.filter fun e => !a.selected.contains e.bone
  setBones index bones (min w.library.bonesIndex (bones.length - 1))
  return .number (p.bones.length - bones.length)

def actionGroups (index : Nat) : Program (List String) := do
  let p ← pose index
  look fun w => w.scene.actionGroups p

def addFromAction (index : Nat) : Program Answer := do
  let w ← here
  let groups ← actionGroups index
  let a ← armature w.rig
  addBones index (groups.filter a.bones.contains)

def setActiveBoneAsTarget (index : Nat) : Program Answer := do
  let w ← here
  let a ← armature w.rig
  match a.activeBone with
  | none => fault .noActiveBone
  | some bone => do
    let p ← pose index
    changeLibrary fun l =>
      l.setPose index { p with target := some w.rig, targetKind := .boneTransform, bone := bone }
    return .done

def selectBones (bones : List String) : Program Answer := do
  let w ← here
  let a ← armature w.rig
  changeScene fun s => s.updateArmature w.rig fun a =>
    a.mapBones fun n b => if n ∈ bones then { b with select := true } else b
  return .number (bones.filter a.bones.contains).length

def selectPoseBones (index : Nat) : Program Answer := do
  let p ← pose index
  selectBones p.boneNames

def selectActionBones (index : Nat) : Program Answer := do
  let groups ← actionGroups index
  selectBones groups

def actionOf (index : Nat) : Program (Pose × String) := look fun w => w.library.actionOf index

def newAction (index : Nat) : Program Answer := do
  let w ← here
  let p ← pose index
  let name ← addAction (Library.actionPrefix w.prefs p ++ p.name) { keep := true }
  changeLibrary fun l => l.setPose index { p with action := some name }
  return .name name

def duplicateAction (index : Nat) : Program Answer := do
  let (_, current) ← actionOf index
  let a ← action current
  let name ← addAction current a
  let p ← pose index
  changeLibrary fun l => l.setPose index { p with action := some name }
  return .name name

def deleteAction (index : Nat) : Program Answer := do
  let (_, name) ← actionOf index
  changeScene fun s => s.removeAction name
  changeLibrary fun l => l.retarget name none
  return .name name

def renamePoseAction (index : Nat) (new : String) : Program Answer := do
  let (_, old) ← actionOf index
  let name ← renameAction old new
  changeLibrary fun l => l.retarget old (some name)
  return .name name

def removeFlatCurves (index : Nat) : Program Answer := do
  let (_, name) ← actionOf index
  let a ← action name
  changeScene fun s => { s with actions := s.actions.update name Action.withoutFlat }
  return .report (.info (toString a.flatCount ++ " flat curves removed from '" ++ name ++ "'"))

def purge : Program Answer := do
  let w ← here
  let o ← object w.rig
  changeScene fun s => s.updateObject w.rig (·.purge w.prefs)
  return .purged (o.purgeCounts w.prefs)

def setEnabled (enabled : Bool) : Program Nat := do
  let w ← here
  let a ← armature w.rig
  changeScene fun s => s.updateArmature w.rig fun a =>
    a.mapBones fun _ b => b.setEnabled w.prefs enabled
  return Object.compiledConstraints w.prefs a

def evaluate : Program Answer := do
  let w ← here
  let o ← object w.rig
  let outputs ← runDrivers w.rig o.animationOrNew.drivers
  let w ← here
  let (outputs, l) := Network.handOver w.library outputs
  changeLibrary fun _ => l
  return .outputs outputs

def attach (p : Pose) (name : String) (time : Scalar) : Program Network.Attachment := do
  let w ← here
  let a ← armature w.rig
  let attached := Network.place p name time p.bones a
  changeScene fun s => s.updateArmature w.rig fun _ => attached.armature
  return attached

def synthesize (inputs : List Input) (path : Path) : Program Unit := do
  let w ← here
  let _ ← object w.rig
  changeScene fun s =>
    s.updateObject w.rig fun o => Network.bindBlend w.prefs.blendMode inputs o path

def synthesizeEach (inputs : List Input) : List Path → Program Unit
  | [] => return ()
  | path :: r => do
    synthesize inputs path
    synthesizeEach inputs r

def compile (p : Pose) : Program Answer := do
  let w ← here
  let inputs ← look fun w => w.library.inputs p
  let name := w.prefs.constraintName p.name
  let attached ← attach p name 0
  synthesizeEach inputs (attached.placed.map fun b => Path.evalTime b.1 b.2)
  let _ ← object w.rig
  changeScene fun s => s.updateObject w.rig fun o => o.setProperty name (.float 0)
  synthesize inputs (Path.influence p.name)
  return .report (attached.report ++ Network.inputsReport p inputs)

def compileAt (index : Nat) : Program Answer := do
  let p ← pose index
  compile p

def placeTemp (prefs : Preferences) : List Pose → Program Report
  | [] => return {}
  | p :: r => do
    let attached ← attach p (prefs.tempConstraintName p.name) 1
    let rest ← placeTemp prefs r
    return attached.report ++ rest

def tryAssign (name : String) (action : Option String) : Program Report := do
  let assigned ← succeeds (assignAction name action)
  return if assigned then {} else .error ("action couldn't be assigned: " ++ action.getD "")

def engage (p : Pose) (nested : List Pose) (taken : Snapshot) : Program Answer := do
  let w ← here
  let _ ← armature w.rig
  changeScene fun s => s.updateArmature w.rig (·.restBones)
  let assigned ← tryAssign w.rig p.action
  changeScene fun s => { s with autoKey := true }
  let _ ← setEnabled false
  let shown ← placeTemp w.prefs nested
  change fun w => { w with session := .editing taken }
  return .report (assigned ++ shown ++ .info ("action edit engaged for '" ++ p.name ++ "'"))

def enterEdit (index : Nat) : Program Answer := do
  let w ← here
  if w.session.isEditing then fault .alreadyEditing
  else do
    let p ← pose index
    let nested ← look fun w => Edit.shownWith w.library p
    let o ← object w.rig
    let a ← armature w.rig
    engage p nested (Edit.snapshot w.scene o a p.name)

end Program

/-- The steps of a command that is made of such steps. -/
def Command.steps? : Command → Option (Program Answer)
  | .library c =>
    match c with
    | .remove index => some (Program.remove index)
    | .duplicate index =>
      some (Program.insertAfter index fun w p =>
        { p.duplicate with name := w.library.freshName p.name })
    | .addOpposite index =>
      some (Program.insertAfter index fun w p => w.library.oppositeOf w.scene w.rig w.prefs p)
    | .addBoneEntry index => some (Program.addBoneEntry index)
    | .removeBoneEntry index entry => some (Program.removeBoneEntry index entry)
    | .removeAllBones index => some (Program.removeAllBones index)
    | .addSelectedBones index => some (Program.addSelectedBones index)
    | .removeSelectedBones index => some (Program.removeSelectedBones index)
    | .addFromAction index => some (Program.addFromAction index)
    | .setActiveBoneAsTarget index => some (Program.setActiveBoneAsTarget index)
    | _ => none
  | .scene c =>
    match c with
    | .assignAction object action => some do
        Program.assignAction object action
        return .done
    | .write object path x => some do
        Program.writeProperty object path x
        return .done
    | _ => none
  | .rig c =>
    match c with
    | .selectPoseBones index => some (Program.selectPoseBones index)
    | .selectActionBones index => some (Program.selectActionBones index)
    | .newAction index => some (Program.newAction index)
    | .duplicateAction index => some (Program.duplicateAction index)
    | .deleteAction index => some (Program.deleteAction index)
    | .renameAction index name => some (Program.renamePoseAction index name)
    | .removeFlatCurves index => some (Program.removeFlatCurves index)
    | .compile index => some (Program.compileAt index)
    | .compilePose p => some (Program.compile p)
    | .evaluate => some Program.evaluate
    | .purge => some Program.purge
    | .setEnabled enabled => some do
        let n ← Program.setEnabled enabled
        return .number n
    | .enterEdit index => some (Program.enterEdit index)
    | _ => none
  | _ => none

end PoseRig
