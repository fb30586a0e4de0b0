import PoseRig.Proofs.Edit.Suspend
import PoseRig.Proofs.Network.Compile
import PoseRig.Proofs.Pose.BoneList
import PoseRig.Proofs.Pose.Library
import PoseRig.Proofs.Workspace.Program

/-!
# Commands that fail leave everything as it was

What was found before a change is found again after it, so once a program has changed something none
of its steps can fault.
-/

set_option autoImplicit false

namespace PoseRig

theorem Pose.with_addBones (p : Pose) (bones : List String) :
    { p with bones := (p.addBones bones).bones } = p.addBones bones := by
  rw [Pose.addBones_eq]
  rfl

namespace Program

variable {α β : Type} {w w' : Workspace}

def whole (f : Scene → Except Fault (α × Scene)) : Program α := fun w =>
  match f w.scene with
  | .ok (a, s) => (.ok a, { w with scene := s })
  | .error e => (.error e, w)

theorem renameAction_eq (old new : String) :
    renameAction old new = whole fun s => s.renameAction old new := by
  funext w
  unfold renameAction whole Scene.renameAction
  split
  · rfl
  · cases hx : w.scene.actions.get? old with
    | none => simp [action, hx]
    | some x => simp [action, hx]; rfl

theorem bindAction_none {name wanted : String} {kind : ObjectKind}
    (hx : w.scene.actions.get? wanted = none) :
    bindAction name kind wanted w = (.error (.actionNotFound wanted), w) := by
  simp [bindAction, action, hx]

theorem bindAction_some {name wanted : String} {kind : ObjectKind} {x : Action}
    (hx : w.scene.actions.get? wanted = some x) :
    bindAction name kind wanted w =
      match x.root with
      | none =>
        (.ok (), { w with scene := { w.scene with
          actions := w.scene.actions.update wanted fun a => { a with root := some kind } } })
      | some root =>
        if root = kind then (.ok (), w)
        else (.error (.incompatibleAction name wanted root kind), w) := by
  simp only [bindAction, bind_apply, action, look_apply, hx]
  cases x.root with
  | none => rfl
  | some root => dsimp only; split <;> rfl

theorem assignAction_eq (name : String) (reference : Option String) :
    assignAction name reference =
      whole fun s => (s.assignAction name reference).map fun s => ((), s) := by
  funext w
  unfold assignAction whole Scene.assignAction
  cases ho : w.scene.object name with
  | error e => simp [ho, Except.map]
  | ok o =>
    have hthere : ∀ t, ({ w.scene with actions := t } : Scene).object name = .ok o := fun _ => ho
    cases reference with
    | none => simp [Option.forM, ho, Except.map]
    | some wanted =>
      cases hx : w.scene.actions.get? wanted with
      | none => simp [Option.forM, bindAction_none hx, ho, hx, Except.map]
      | some x =>
        cases hroot : x.root with
        | none =>
          simp [Option.forM, bindAction_some hx, ho, hx, hroot, hthere, Except.map]
          rfl
        | some root =>
          by_cases hkind : root = o.kind <;>
            simp [Option.forM, bindAction_some hx, ho, hx, hroot, hkind, Except.map]

theorem writeProperty_eq (name : String) (path : Path) (x : Scalar) :
    writeProperty name path x =
      whole fun s => (s.writeProperty name path x).map fun s => ((), s) := by
  funext w
  unfold writeProperty whole Scene.writeProperty
  cases ho : w.scene.object name with
  | error e => simp [ho, Except.map]
  | ok o => cases hw : o.write name path x <;> simp [ho, hw, Except.map]

theorem runDriver_apply (name : String) (d : Driver) (w : Workspace) :
    runDriver name d w =
      (.ok (Scene.runDriver name w.scene d).1,
        { w with scene := (Scene.runDriver name w.scene d).2 }) := by
  unfold runDriver Scene.runDriver
  cases hx : w.scene.driverValue d with
  | error e => simp [hx]
  | ok x =>
    cases hs : w.scene.writeProperty name d.dataPath x <;>
      simp [hx, hs, writeProperty_eq, succeeds, whole, Except.map]

theorem runDrivers_apply (name : String) (ds : List Driver) (w : Workspace) :
    runDrivers name ds w =
      (.ok (Scene.runDrivers name ds w.scene).1,
        { w with scene := (Scene.runDrivers name ds w.scene).2 }) := by
  induction ds generalizing w with
  | nil => rfl
  | cons d r ih => simp [runDrivers, Scene.runDrivers, runDriver_apply, ih]

theorem assignAction_apply (name : String) (reference : Option String) (w : Workspace) :
    (do assignAction name reference; return Answer.done : Program Answer) w =
      w.run (.scene (.assignAction name reference)) := by
  cases hs : w.scene.assignAction name reference <;>
    simp [assignAction_eq, whole, Workspace.run, Workspace.onScene, Workspace.settleSceneOnly, hs,
      Except.map]

theorem writeProperty_apply (name : String) (path : Path) (x : Scalar) (w : Workspace) :
    (do writeProperty name path x; return Answer.done : Program Answer) w =
      w.run (.scene (.write name path x)) := by
  cases hs : w.scene.writeProperty name path x <;>
    simp [writeProperty_eq, whole, Workspace.run, Workspace.onScene, Workspace.settleSceneOnly, hs,
      Except.map]

theorem remove_apply (index : Nat) (w : Workspace) :
    remove index w = w.run (.library (.remove index)) := by
  cases hp : w.library.get index <;>
    simp [remove, Workspace.run, Workspace.onLibrary, Workspace.settleLibrary, Library.remove, hp]

theorem duplicate_apply (index : Nat) (w : Workspace) :
    insertAfter index (fun w p => { p.duplicate with name := w.library.freshName p.name }) w =
      w.run (.library (.duplicate index)) := by
  cases hp : w.library.get index <;>
    simp [insertAfter, Workspace.run, Workspace.onLibrary, Workspace.settleIndex, Library.duplicate,
      Library.insertAfter, hp]

theorem addOpposite_apply (index : Nat) (w : Workspace) :
    insertAfter index (fun w p => w.library.oppositeOf w.scene w.rig w.prefs p) w =
      w.run (.library (.addOpposite index)) := by
  cases hp : w.library.get index <;>
    simp [insertAfter, Workspace.run, Workspace.onLibrary, Workspace.settleIndex,
      Library.addOpposite, Library.insertAfter, hp]

theorem setBones_apply {index : Nat} {p : Pose} (hp : w.library.get index = .ok p)
    (bones : List BoneEntry) (selected : Nat) :
    setBones index bones selected w =
      (.ok (),
        { w with library := w.library.setBones index { p with bones := bones } selected }) := by
  simp [setBones, Library.setBones, hp]

theorem addBoneEntry_apply (index : Nat) (w : Workspace) :
    addBoneEntry index w = w.run (.library (.addBoneEntry index)) := by
  cases hp : w.library.get index <;>
    simp [addBoneEntry, setBones_apply, Workspace.run, Workspace.onLibrary, Workspace.settleLibrary,
      Library.addBoneEntry, hp]

theorem removeBoneEntry_apply (index entry : Nat) (w : Workspace) :
    removeBoneEntry index entry w = w.run (.library (.removeBoneEntry index entry)) := by
  cases hp : w.library.get index with
  | error e =>
    simp [removeBoneEntry, Workspace.run, Workspace.onLibrary, Workspace.settleLibrary,
      Library.removeBoneEntry, hp]
  | ok p =>
    cases hb : p.bones[entry]? <;>
      simp [removeBoneEntry, setBones_apply hp, Workspace.run, Workspace.onLibrary,
        Workspace.settleLibrary, Library.removeBoneEntry, hp, hb]

theorem removeAllBones_apply (index : Nat) (w : Workspace) :
    removeAllBones index w = w.run (.library (.removeAllBones index)) := by
  cases hp : w.library.get index <;>
    simp [removeAllBones, setBones_apply, Workspace.run, Workspace.onLibrary,
      Workspace.settleLibrary, Library.removeAllBones, hp]

theorem addBones_apply (index : Nat) (bones : List String) (w : Workspace) :
    addBones index bones w = w.settleLibrary .number (w.library.addBones index bones) := by
  cases hp : w.library.get index with
  | error e => simp [addBones, Workspace.settleLibrary, Library.addBones, hp]
  | ok p =>
    simp [addBones, setBones_apply hp, Workspace.settleLibrary, Library.addBones, hp,
      p.with_addBones]

theorem addSelectedBones_apply (index : Nat) (w : Workspace) :
    addSelectedBones index w = w.run (.library (.addSelectedBones index)) := by
  cases ha : w.scene.armature w.rig <;>
    simp [addSelectedBones, addBones_apply, Workspace.run, Workspace.onLibrary,
      Workspace.settleLibrary, Library.addSelectedBones, ha]

theorem removeSelectedBones_apply (index : Nat) (w : Workspace) :
    removeSelectedBones index w = w.run (.library (.removeSelectedBones index)) := by
  cases ha : w.scene.armature w.rig with
  | error e =>
    simp [removeSelectedBones, Workspace.run, Workspace.onLibrary, Workspace.settleLibrary,
      Library.removeSelectedBones, ha]
  | ok a =>
    cases hp : w.library.get index <;>
      simp [removeSelectedBones, setBones_apply, Workspace.run, Workspace.onLibrary,
        Workspace.settleLibrary, Library.removeSelectedBones, ha, hp]

theorem addFromAction_apply (index : Nat) (w : Workspace) :
    addFromAction index w = w.run (.library (.addFromAction index)) := by
  cases hp : w.library.get index with
  | error e =>
    simp [addFromAction, actionGroups, Workspace.run, Workspace.onLibrary, Workspace.settleLibrary,
      Library.addFromAction, hp]
  | ok p =>
    cases hg : w.scene.actionGroups p with
    | error e =>
      simp [addFromAction, actionGroups, Workspace.run, Workspace.onLibrary,
        Workspace.settleLibrary, Library.addFromAction, hp, hg]
    | ok groups =>
      cases ha : w.scene.armature w.rig <;>
        simp [addFromAction, actionGroups, addBones_apply, Workspace.run, Workspace.onLibrary,
          Workspace.settleLibrary, Library.addFromAction, hp, hg, ha]

theorem setActiveBoneAsTarget_apply (index : Nat) (w : Workspace) :
    setActiveBoneAsTarget index w = w.run (.library (.setActiveBoneAsTarget index)) := by
  cases ha : w.scene.armature w.rig with
  | error e =>
    simp [setActiveBoneAsTarget, Workspace.run, Workspace.onLibrary, Workspace.settleLibrary,
      Library.setActiveBoneAsTarget, ha, Except.map]
  | ok a =>
    cases hb : a.activeBone with
    | none =>
      simp [setActiveBoneAsTarget, Workspace.run, Workspace.onLibrary, Workspace.settleLibrary,
        Library.setActiveBoneAsTarget, ha, hb, Except.map]
    | some bone =>
      cases hp : w.library.get index <;>
        simp [setActiveBoneAsTarget, Workspace.run, Workspace.onLibrary, Workspace.settleLibrary,
          Library.setActiveBoneAsTarget, ha, hb, hp, Except.map]

theorem selectBones_apply (bones : List String) (w : Workspace) :
    selectBones bones w = w.settleScene .number (w.scene.selectBones w.rig bones) := by
  cases ha : w.scene.armature w.rig <;>
    simp [selectBones, Workspace.settleScene, Scene.selectBones, ha]

theorem selectPoseBones_apply (index : Nat) (w : Workspace) :
    selectPoseBones index w = w.run (.rig (.selectPoseBones index)) := by
  cases hp : w.library.get index <;>
    simp [selectPoseBones, selectBones_apply, Workspace.run, Workspace.onRig, Workspace.settleScene,
      Scene.selectPoseBones, hp]

theorem selectActionBones_apply (index : Nat) (w : Workspace) :
    selectActionBones index w = w.run (.rig (.selectActionBones index)) := by
  cases hp : w.library.get index with
  | error e =>
    simp [selectActionBones, actionGroups, Workspace.run, Workspace.onRig, Workspace.settleScene,
      Scene.selectActionBones, hp]
  | ok p =>
    cases hg : w.scene.actionGroups p <;>
      simp [selectActionBones, actionGroups, selectBones_apply, Workspace.run, Workspace.onRig,
        Workspace.settleScene, Scene.selectActionBones, hp, hg]

theorem newAction_apply (index : Nat) (w : Workspace) :
    newAction index w = w.run (.rig (.newAction index)) := by
  cases hp : w.library.get index <;>
    simp [newAction, addAction, Workspace.run, Workspace.onRig, Workspace.settleBoth,
      Library.newAction, hp]

theorem duplicateAction_apply (index : Nat) (w : Workspace) :
    duplicateAction index w = w.run (.rig (.duplicateAction index)) := by
  cases hp : w.library.actionOf index with
  | error e =>
    simp [duplicateAction, actionOf, Workspace.run, Workspace.onRig, Workspace.settleBoth,
      Library.duplicateAction, hp]
  | ok found =>
    obtain ⟨p, current⟩ := found
    cases hx : w.scene.actions.get? current <;>
      simp [duplicateAction, actionOf, action, addAction, Workspace.run, Workspace.onRig,
        Workspace.settleBoth, Library.duplicateAction, hp, hx, (Library.actionOf_ok hp).1]

theorem deleteAction_apply (index : Nat) (w : Workspace) :
    deleteAction index w = w.run (.rig (.deleteAction index)) := by
  cases hp : w.library.actionOf index <;>
    simp [deleteAction, actionOf, Workspace.run, Workspace.onRig, Workspace.settleBoth,
      Library.deleteAction, hp]

theorem renamePoseAction_apply (index : Nat) (new : String) (w : Workspace) :
    renamePoseAction index new w = w.run (.rig (.renameAction index new)) := by
  cases hp : w.library.actionOf index with
  | error e =>
    simp [renamePoseAction, actionOf, Workspace.run, Workspace.onRig, Workspace.settleBoth,
      Library.renameAction, hp]
  | ok found =>
    cases hs : w.scene.renameAction found.2 new <;>
      simp [renamePoseAction, actionOf, renameAction_eq, whole, Workspace.run, Workspace.onRig,
        Workspace.settleBoth, Library.renameAction, hp, hs]

theorem removeFlatCurves_apply (index : Nat) (w : Workspace) :
    removeFlatCurves index w = w.run (.rig (.removeFlatCurves index)) := by
  cases hp : w.library.actionOf index with
  | error e =>
    simp [removeFlatCurves, actionOf, Workspace.run, Workspace.onRig, Workspace.settleScene,
      Library.removeFlatCurves, hp]
  | ok found =>
    cases hx : w.scene.actions.get? found.2 <;>
      simp [removeFlatCurves, actionOf, action, Workspace.run, Workspace.onRig,
        Workspace.settleScene, Library.removeFlatCurves, hp, hx]

theorem purge_apply (w : Workspace) : purge w = w.run (.rig .purge) := by
  cases ho : w.scene.object w.rig <;>
    simp [purge, Workspace.run, Workspace.onRig, Workspace.settleScene, Network.purge, ho]

theorem evaluate_apply (w : Workspace) : evaluate w = w.run (.rig .evaluate) := by
  cases ho : w.scene.object w.rig <;>
    simp [evaluate, runDrivers_apply, Workspace.run, Workspace.onRig, Workspace.settleBoth,
      Network.evaluate, Scene.evaluateDrivers, ho]

variable {o : Object} {a : Armature}

theorem attach_apply (ha : w.scene.armature w.rig = .ok a) (p : Pose) (name : String)
    (time : Scalar) :
    attach p name time w =
      (.ok (Network.place p name time p.bones a),
        { w with scene := w.scene.updateArmature w.rig fun _ =>
            (Network.place p name time p.bones a).armature }) := by
  simp [attach, ha]

theorem synthesize_apply (ho : w.scene.object w.rig = .ok o) (inputs : List Input) (path : Path) :
    synthesize inputs path w =
      (.ok (), { w with
        scene := w.scene.setObject w.rig
          (Network.bindBlend w.prefs.blendMode inputs o path) }) := by
  simp [synthesize, ho, Scene.updateObject_eq ho]

theorem synthesizeEach_apply (ho : w.scene.object w.rig = .ok o) (inputs : List Input)
    (paths : List Path) :
    synthesizeEach inputs paths w =
      (.ok (), { w with
        scene := w.scene.setObject w.rig
          (paths.foldl (Network.bindBlend w.prefs.blendMode inputs) o) }) := by
  induction paths generalizing w o with
  | nil => simp [synthesizeEach, Scene.setObject_self ho]
  | cons path r ih =>
    simp only [synthesizeEach, bind_apply, synthesize_apply ho]
    rw [ih (Scene.object_setObject _ _ _), Scene.setObject_setObject]
    rfl

theorem foldl_bindBlend_setProperty (mode : BlendMode) (inputs : List Input) (paths : List Path)
    (o : Object) (name : String) (v : Value) :
    paths.foldl (Network.bindBlend mode inputs) (o.setProperty name v) =
      (paths.foldl (Network.bindBlend mode inputs) o).setProperty name v := by
  induction paths generalizing o with
  | nil => rfl
  | cons path r ih =>
    rw [List.foldl_cons, List.foldl_cons, ← ih]
    congr 1
    unfold Network.bindBlend
    cases Network.blendDriver? mode inputs path <;> rfl

theorem compile_apply (p : Pose) (w : Workspace) :
    compile p w = w.run (.rig (.compilePose p)) := by
  cases hin : w.library.inputs p with
  | error e =>
    simp [compile, Workspace.run, Workspace.onRig, Workspace.settleScene, Network.compile, hin]
  | ok inputs =>
    cases ho : w.scene.object w.rig with
    | error e =>
      simp [compile, attach, Workspace.run, Workspace.onRig, Workspace.settleScene,
        Network.compile, hin, ho, Scene.armature]
    | ok o =>
      cases ha : w.scene.armature w.rig with
      | error e =>
        simp [compile, attach, Workspace.run, Workspace.onRig, Workspace.settleScene,
          Network.compile, hin, ho, ha]
      | ok a =>
        obtain ⟨o', ho', hoa⟩ := Scene.object_of_armature ha
        obtain rfl := Except.ok.inj (ho.symm.trans ho')
        simp only [compile, bind_apply, here_apply, look_apply, hin, attach_apply ha,
          Scene.updateArmature_eq ho hoa]
        rw [synthesizeEach_apply (Scene.object_setObject _ _ _)]
        -- the property is set before the last driver, not before all of them
        simp [synthesize_apply, foldl_bindBlend_setProperty, Workspace.run, Workspace.onRig,
          Workspace.settleScene, Network.compile, Network.install, Network.blendPaths, hin, ha, ho]

theorem compileAt_apply (index : Nat) (w : Workspace) :
    compileAt index w = w.run (.rig (.compile index)) := by
  cases hp : w.library.get index <;>
    simp [compileAt, compile_apply, Workspace.run, Workspace.onRig, hp]

theorem placeTemp_apply (prefs : Preferences) (ps : List Pose)
    (ha : w.scene.armature w.rig = .ok a) :
    placeTemp prefs ps w =
      (.ok (Edit.placeTemp prefs ps a).1, { w with
        scene := w.scene.updateArmature w.rig fun _ => (Edit.placeTemp prefs ps a).2 }) := by
  induction ps generalizing w a with
  | nil => simp [placeTemp, Edit.placeTemp, Scene.updateArmature_self ha]
  | cons p r ih =>
    have hplaced := Scene.armature_updateArmature ha fun _ =>
      (Network.place p (prefs.tempConstraintName p.name) 1 p.bones a).armature
    simp only [placeTemp, bind_apply, attach_apply ha]
    rw [ih hplaced, Scene.updateArmature_const ha]
    rfl

theorem tryAssign_apply (rig : String) (action : Option String) (w : Workspace) :
    tryAssign rig action w =
      (.ok (Edit.tryAssign w.scene rig action).1,
        { w with scene := (Edit.tryAssign w.scene rig action).2 }) := by
  cases hs : w.scene.assignAction rig action <;>
    simp [tryAssign, succeeds, assignAction_eq, whole, Edit.tryAssign, hs, Except.map]

theorem setEnabled_ok (ha : w.scene.armature w.rig = .ok a) (enabled : Bool) :
    setEnabled enabled w =
      (.ok (Object.compiledConstraints w.prefs a), { w with
        scene := w.scene.updateArmature w.rig fun a =>
          a.mapBones fun _ b => b.setEnabled w.prefs enabled }) := by
  simp [setEnabled, ha]

theorem setEnabled_apply (enabled : Bool) (w : Workspace) :
    (do let n ← setEnabled enabled; return Answer.number n : Program Answer) w =
      w.run (.rig (.setEnabled enabled)) := by
  cases ha : w.scene.armature w.rig <;>
    simp [setEnabled, Workspace.run, Workspace.onRig, Workspace.settleScene, Network.setEnabled, ha]

theorem engage_apply (ha : w.scene.armature w.rig = .ok a) (p : Pose) (nested : List Pose)
    (taken : Snapshot) :
    engage p nested taken w =
      let (assigned, s) :=
        Edit.tryAssign (w.scene.updateArmature w.rig (·.restBones)) w.rig p.action
      let shown := Edit.placeTemp w.prefs nested
        (a.restBones.mapBones fun _ b => b.setEnabled w.prefs false)
      (.ok (.report (assigned ++ shown.1 ++ .info ("action edit engaged for '" ++ p.name ++ "'"))),
        { w with
          session := .editing taken
          scene := { s with autoKey := true }.updateArmature w.rig fun _ => shown.2 }) := by
  have hrested := Scene.armature_updateArmature ha (·.restBones)
  have hassigned := (Edit.armature_tryAssign _ w.rig p.action).trans hrested
  have hkeyed :
    ({ (Edit.tryAssign (w.scene.updateArmature w.rig (·.restBones)) w.rig p.action).2 with
      autoKey := true } : Scene).armature w.rig = .ok a.restBones := hassigned
  have hdisabled := Scene.armature_updateArmature hkeyed fun a =>
    a.mapBones fun _ b => b.setEnabled w.prefs false
  simp only [engage, bind_apply, here_apply, armature_apply, ha, changeScene_apply, tryAssign_apply]
  rw [setEnabled_ok hkeyed]
  dsimp only
  rw [placeTemp_apply w.prefs nested hdisabled, Scene.updateArmature_const hkeyed]
  rfl

theorem enterEdit_apply (index : Nat) (w : Workspace) :
    enterEdit index w = w.run (.rig (.enterEdit index)) := by
  cases hediting : w.session.isEditing with
  | true => simp [enterEdit, Workspace.run, Workspace.onRig, Edit.enter, hediting]
  | false =>
    cases hp : w.library.get index with
    | error e => simp [enterEdit, Workspace.run, Workspace.onRig, Edit.enter, hediting, hp]
    | ok p =>
      cases hn : Edit.shownWith w.library p with
      | error e => simp [enterEdit, Workspace.run, Workspace.onRig, Edit.enter, hediting, hp, hn]
      | ok nested =>
        cases ho : w.scene.object w.rig with
        | error e =>
          simp [enterEdit, Workspace.run, Workspace.onRig, Edit.enter, hediting, hp, hn, ho]
        | ok o =>
          cases ha : w.scene.armature w.rig with
          | error e =>
            simp [enterEdit, Workspace.run, Workspace.onRig, Edit.enter, hediting, hp, hn, ho, ha]
          | ok a =>
            simp [enterEdit, engage_apply ha, Workspace.run, Workspace.onRig,
              Edit.enter, hediting, hp, hn, ho, ha]

end Program

namespace Workspace

variable {w : Workspace} {c : Command} {steps : Program Answer}

theorem of_some {x y : Program Answer} {r : Outcome} (h : some x = some y) (hx : x w = r) :
    y w = r := by
  rwa [← Option.some.inj h]

theorem steps_eq_run (h : c.steps? = some steps) (w : Workspace) : steps w = w.run c := by
  cases c with
  | library c =>
    cases c with
    | remove index => exact of_some h (Program.remove_apply index w)
    | duplicate index => exact of_some h (Program.duplicate_apply index w)
    | addOpposite index => exact of_some h (Program.addOpposite_apply index w)
    | addBoneEntry index => exact of_some h (Program.addBoneEntry_apply index w)
    | removeBoneEntry index entry => exact of_some h (Program.removeBoneEntry_apply index entry w)
    | removeAllBones index => exact of_some h (Program.removeAllBones_apply index w)
    | addSelectedBones index => exact of_some h (Program.addSelectedBones_apply index w)
    | removeSelectedBones index => exact of_some h (Program.removeSelectedBones_apply index w)
    | addFromAction index => exact of_some h (Program.addFromAction_apply index w)
    | setActiveBoneAsTarget index => exact of_some h (Program.setActiveBoneAsTarget_apply index w)
    | _ => cases h
  | scene c =>
    cases c with
    | assignAction object action => exact of_some h (Program.assignAction_apply object action w)
    | write object path x => exact of_some h (Program.writeProperty_apply object path x w)
    | _ => cases h
  | rig c =>
    cases c with
    | selectPoseBones index => exact of_some h (Program.selectPoseBones_apply index w)
    | selectActionBones index => exact of_some h (Program.selectActionBones_apply index w)
    | newAction index => exact of_some h (Program.newAction_apply index w)
    | duplicateAction index => exact of_some h (Program.duplicateAction_apply index w)
    | deleteAction index => exact of_some h (Program.deleteAction_apply index w)
    | renameAction index name => exact of_some h (Program.renamePoseAction_apply index name w)
    | removeFlatCurves index => exact of_some h (Program.removeFlatCurves_apply index w)
    | compile index => exact of_some h (Program.compileAt_apply index w)
    | compilePose p => exact of_some h (Program.compile_apply p w)
    | evaluate => exact of_some h (Program.evaluate_apply w)
    | purge => exact of_some h (Program.purge_apply w)
    | setEnabled enabled => exact of_some h (Program.setEnabled_apply enabled w)
    | enterEdit index => exact of_some h (Program.enterEdit_apply index w)
    | _ => cases h
  | _ => cases h

/-- A fault has left the workspace as it was. -/
def KeptByFault (w : Workspace) (r : Outcome) : Prop := ∀ e, r.1 = .error e → r.2 = w

section Settle

variable {α : Type}

theorem kept_fault (w : Workspace) (e : Fault) : w.KeptByFault (.error e, w) := fun _ _ => rfl

theorem kept_ok (w w' : Workspace) (answer : Answer) : w.KeptByFault (.ok answer, w') := by
  intro e h
  cases h

theorem kept_settleScene (w : Workspace) (answer : α → Answer) (r : Except Fault (α × Scene)) :
    w.KeptByFault (w.settleScene answer r) := by
  rcases r with e | ⟨a, s⟩
  · exact w.kept_fault e
  · exact w.kept_ok _ _

theorem kept_settleSceneOnly (w : Workspace) (r : Except Fault Scene) :
    w.KeptByFault (w.settleSceneOnly r) := by
  rcases r with e | s
  · exact w.kept_fault e
  · exact w.kept_ok _ _

theorem kept_settleLibrary (w : Workspace) (answer : α → Answer) (r : Except Fault (α × Library)) :
    w.KeptByFault (w.settleLibrary answer r) := by
  rcases r with e | ⟨a, l⟩
  · exact w.kept_fault e
  · exact w.kept_ok _ _

theorem kept_settleIndex (w : Workspace) (r : Except Fault Library) :
    w.KeptByFault (w.settleIndex r) := by
  rcases r with e | l
  · exact w.kept_fault e
  · exact w.kept_ok _ _

theorem kept_settleBoth (w : Workspace) (answer : α → Answer)
    (r : Except Fault (α × Scene × Library)) : w.KeptByFault (w.settleBoth answer r) := by
  rcases r with e | ⟨a, s, l⟩
  · exact w.kept_fault e
  · exact w.kept_ok _ _

end Settle

theorem kept_run (w : Workspace) (h : c.steps?.isSome = true) : w.KeptByFault (w.run c) := by
  cases c with
  | library c =>
    cases c with
    | duplicate index => exact w.kept_settleIndex _
    | addOpposite index => exact w.kept_settleIndex _
    | push p => cases h
    | add => cases h
    | clear => cases h
    | move direction => cases h
    | select index => cases h
    | clearActionRefs action => cases h
    | renameActionRefs action new => cases h
    | _ => exact w.kept_settleLibrary _ _
  | scene c =>
    cases c with
    | assignAction object action => exact w.kept_settleSceneOnly _
    | write object path x => exact w.kept_settleSceneOnly _
    | _ => cases h
  | rig c =>
    cases c with
    | newAction index => exact w.kept_settleBoth _ _
    | duplicateAction index => exact w.kept_settleBoth _ _
    | deleteAction index => exact w.kept_settleBoth _ _
    | renameAction index name => exact w.kept_settleBoth _ _
    | evaluate => exact w.kept_settleBoth _ _
    | compile index =>
      simp only [run, onRig]
      split
      · exact w.kept_fault _
      · exact w.kept_settleScene _ _
    | enterEdit index =>
      simp only [run, onRig]
      split
      · exact w.kept_fault _
      · exact w.kept_ok _ _
    | selectTargetBone index => cases h
    | compileAll => cases h
    | leaveEdit => cases h
    | toggleEdit index => cases h
    | _ => exact w.kept_settleScene _ _
  | _ => cases h

/-- Step by step a command does what it does as a whole, and if one of its steps faults the
workspace is as it was. -/
theorem steps_atomic (c : Command) (steps : Program Answer) (h : c.steps? = some steps)
    (w : Workspace) : steps w = w.run c ∧ ∀ e w', steps w = (.error e, w') → w' = w := by
  have hrun := steps_eq_run h w
  have hkept := w.kept_run (Option.isSome_iff_exists.mpr ⟨steps, h⟩)
  refine ⟨hrun, ?_⟩
  intro e w' hfault
  rw [hrun] at hfault
  rw [hfault] at hkept
  exact hkept e rfl

def statueWorkspace : Workspace where
  rig := "Rig"
  scene :=
    { objects := .ofList [("Rig", { kind := .mesh })]
      actions := .ofList [("Smile", {})] }
  library := { poses := [{ Pose.ofName "Smile" with action := some "Smile" }] }

theorem steps_atomic_statue :
    (Command.rig (.enterEdit 0)).steps? = some (Program.enterEdit 0) ∧
      ∃ w', Program.enterEdit 0 statueWorkspace = (.error (.notAnArmature "Rig"), w') ∧
        w' = statueWorkspace := by
  have hsteps : (Command.rig (.enterEdit 0)).steps? = some (Program.enterEdit 0) := rfl
  obtain ⟨hrun, hkept⟩ := steps_atomic _ _ hsteps statueWorkspace
  have hfault : Program.enterEdit 0 statueWorkspace =
      (.error (.notAnArmature "Rig"), (statueWorkspace.run (.rig (.enterEdit 0))).2) := by
    rw [hrun]
    rfl
  exact ⟨hsteps, _, hfault, hkept _ _ hfault⟩

end Workspace

end PoseRig
