import PoseRig.Number.Scalar
import PoseRig.Label

/-!
# Action constraints

A constraint plays a frame range of an action on a bone, at the position its evaluation time gives.
-/

set_option autoImplicit false

namespace PoseRig

inductive Mix where
  | beforeFull
  | before
  | beforeSplit
  | afterFull
  | after
  | afterSplit
  deriving DecidableEq, Repr, Inhabited

instance : Labelled Mix where
  all := [.beforeFull, .before, .beforeSplit, .afterFull, .after, .afterSplit]
  label
    | .beforeFull => "BEFORE_FULL"
    | .before => "BEFORE"
    | .beforeSplit => "BEFORE_SPLIT"
    | .afterFull => "AFTER_FULL"
    | .after => "AFTER"
    | .afterSplit => "AFTER_SPLIT"

structure Constraint where
  name : String := "Action"
  enabled : Bool := true
  action : Option String := none
  frameStart : Int := 0
  frameEnd : Int := 10
  mix : Mix := .beforeFull
  influence : Scalar := 1
  useEvalTime : Bool := false
  evalTime : Scalar := 0
  deriving Repr, Inhabited

namespace Constraint

def currentFrame (c : Constraint) : Scalar :=
  let start := Scalar.ofInteger c.frameStart
  let stop := Scalar.ofInteger c.frameEnd
  start + (stop - start) * c.evalTime

end Constraint

end PoseRig
