import PoseRig.Edit.Action
import PoseRig.Pose.Validity
import PoseRig.Scene.Evaluate

/-!
# Building and evaluating the network

Building purges the rig and compiles the poses that are flagged for it and valid, in list order. A
combo that reaches itself is reported and left out. Evaluating runs the drivers of the rig and hands
influences to the poses they belong to.
-/

set_option autoImplicit false

namespace PoseRig.Network

def build (prefs : Preferences) (rig : String) (l : Library) (p : Pose) (s : Scene) :
    Except Fault (Report × Bool × Scene) :=
  if p.build then
    match p.invalid? s with
    | some reason =>
      .ok (.warning ("pose '" ++ p.name ++ "' skipped: " ++ reason.message), false, s)
    | none =>
      match compile prefs rig l p s with
      | .ok (report, s) => .ok (report, true, s)
      | .error (.comboCycle chain) =>
        .ok (.error ("pose '" ++ p.name ++ "' skipped: " ++ (Fault.comboCycle chain).message),
          false, s)
      | .error e => .error e
  else .ok ({}, false, s)

/-- Builds poses in turn and counts those built. What was built before a fault stays. -/
def buildEach (prefs : Preferences) (rig : String) (l : Library) :
    List Pose → Scene → Except Fault (Report × Nat) × Scene
  | [], s => (.ok ({}, 0), s)
  | p :: r, s =>
    match build prefs rig l p s with
    | .error e => (.error e, s)
    | .ok (report, built, s) =>
      match buildEach prefs rig l r s with
      | (.error e, s) => (.error e, s)
      | (.ok (rest, n), s) => (.ok (report ++ rest, if built then n + 1 else n), s)

def rebuild (prefs : Preferences) (rig : String) (l : Library) (s : Scene) :
    Except Fault Report × Scene :=
  match purge prefs rig s with
  | .error e => (.error e, s)
  | .ok (_, s) =>
    match buildEach prefs rig l l.poses s with
    | (.error e, s) => (.error e, s)
    | (.ok (report, n), s) =>
      (.ok (report ++ .info (toString n ++ " poses created successfully")), s)

def compileAll (prefs : Preferences) (rig : String) (l : Library) (session : Session) (s : Scene) :
    Except Fault Report × Session × Scene :=
  if session.isEditing then
    match Edit.leave prefs rig session s with
    | (.error e, session, s) => (.error e, session, s)
    | (.ok left, session, s) =>
      match rebuild prefs rig l s with
      | (.error e, s) => (.error e, session, s)
      | (.ok report, s) => (.ok (left ++ report), session, s)
  else
    match rebuild prefs rig l s with
    | (result, s) => (result, session, s)

/-- Hands the values of influence drivers to the poses they name; such an output counts as
applied. -/
def handOver (l : Library) : List DriverOutput → List DriverOutput × Library
  | [] => ([], l)
  | o :: r =>
    match o.value, o.dataPath.influenceTarget? with
    | some x, some pose =>
      if (l.find? pose).isSome then
        let (rest, l) := handOver (l.setInfluence pose x) r
        ({ o with applied := true } :: rest, l)
      else
        let (rest, l) := handOver l r
        (o :: rest, l)
    | _, _ =>
      let (rest, l) := handOver l r
      (o :: rest, l)

def evaluate (rig : String) (l : Library) (s : Scene) :
    Except Fault (List DriverOutput × Scene × Library) :=
  match s.evaluateDrivers rig with
  | .error e => .error e
  | .ok (outputs, s) =>
    let (outputs, l) := handOver l outputs
    .ok (outputs, s, l)

end PoseRig.Network
