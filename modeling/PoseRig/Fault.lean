import PoseRig.Property.Resolve
import PoseRig.Expr.Token
import PoseRig.Scene.Action

/-!
# Faults

Why an operation on a document, a library or a session fails.
-/

set_option autoImplicit false

namespace PoseRig

inductive Fault where
  | objectNotFound (object : String)
  | notAnArmature (object : String)
  | boneNotFound (object bone : String)
  | actionNotFound (action : String)
  | incompatibleAction (object action : String) (bound own : ObjectKind)
  | path (e : ResolveError)
  | notScalar (path : Path)
  | unwritable (path : Path)
  | expression (e : ExprError)
  | poseIndex (index count : Nat)
  | boneIndex (index count : Nat)
  | noAction (pose : String)
  | noTarget (pose : String)
  | comboCycle (chain : List String)
  | noActiveBone
  | alreadyEditing
  | notEditing
  deriving Repr

namespace Fault

def message : Fault → String
  | .objectNotFound object => s!"object '{object}' not found"
  | .notAnArmature object => s!"object '{object}' is not an armature"
  | .boneNotFound object bone => s!"bone '{bone}' not found on '{object}'"
  | .actionNotFound action => s!"action '{action}' not found"
  | .incompatibleAction object action bound own =>
    s!"action '{action}' cannot be assigned to '{object}': " ++
      "action animates " ++ label bound ++ " data, object is " ++ label own
  | .path e => "property path error: " ++ e.message
  | .notScalar p => "'" ++ p.text ++ "' does not hold a scalar value"
  | .unwritable p => "'" ++ p.text ++ "' is not a writable property"
  | .expression e => "driver expression error: " ++ e.message
  | .poseIndex index count => s!"pose index {index} out of range (len {count})"
  | .boneIndex index count => s!"bone index {index} out of range (len {count})"
  | .noAction pose => s!"pose '{pose}' has no action"
  | .noTarget pose => s!"pose '{pose}' has no target"
  | .comboCycle chain => "combo poses form a cycle: " ++ " -> ".intercalate chain
  | .noActiveBone => "no active bone"
  | .alreadyEditing => "action edit is already engaged"
  | .notEditing => "action edit is not engaged"

end Fault

end PoseRig
