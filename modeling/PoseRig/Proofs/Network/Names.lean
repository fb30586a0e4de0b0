import PoseRig.Network.Purge
import PoseRig.Proofs.Naming.Fresh

/-!
# Recognising compiled names and paths

A marker without a point stays at the start of every name that is found for a marked one, so what is
placed under a marked name is recognised by it. Paths onto evaluation times and onto influences are
told apart, and each kind determines what it leads to.
-/

set_option autoImplicit false

namespace PoseRig

theorem occursIn_of_prefix {part cs : List Char} (h : part <+: cs) : occursIn part cs = true := by
  cases cs with
  | nil => simp [occursIn, List.prefix_nil.mp h]
  | cons c r => simp [occursIn, List.isPrefixOf_iff_prefix.mpr h]

theorem contains_fresh {marker : String} (hdot : '.' ∉ marker.toList) (taken : List String)
    (name : String) : contains (Naming.fresh taken (marker ++ name)) marker = true := by
  apply occursIn_of_prefix
  apply Naming.prefix_fresh hdot
  rw [String.toList_append]
  exact List.prefix_append _ _

namespace Preferences

theorem isCompiled_fresh {prefs : Preferences} (hdot : '.' ∉ prefs.constraintPrefix.toList)
    (taken : List String) (pose : String) :
    prefs.isCompiled (Naming.fresh taken (prefs.constraintName pose)) = true :=
  contains_fresh hdot taken pose

theorem isCompiled_constraintName (prefs : Preferences) (pose : String) :
    prefs.isCompiled (prefs.constraintName pose) = true := by
  apply occursIn_of_prefix
  rw [constraintName, String.toList_append]
  exact List.prefix_append _ _

theorem isTemp_fresh {prefs : Preferences} (hdot : '.' ∉ prefs.tempMarker.toList)
    (taken : List String) (pose : String) :
    prefs.isTemp (Naming.fresh taken (prefs.tempConstraintName pose)) = true :=
  contains_fresh hdot taken pose

end Preferences

namespace Path

@[simp] theorem constraint?_evalTime (bone name : String) :
    (evalTime bone name).constraint? = some name := by
  simp [constraint?, evalTime, ofConstraint, constraintIn]

@[simp] theorem influenceTarget?_evalTime (bone name : String) :
    (evalTime bone name).influenceTarget? = none := rfl

@[simp] theorem influenceTarget?_influence (pose : String) :
    (influence pose).influenceTarget? = some pose := by
  simp [influenceTarget?, influence]

theorem evalTime_inj {bone bone' name name' : String} :
    evalTime bone name = evalTime bone' name' ↔ bone = bone' ∧ name = name' := by
  simp [evalTime, ofConstraint]

theorem influence_inj {pose pose' : String} : influence pose = influence pose' ↔ pose = pose' := by
  simp [influence]

theorem evalTime_ne_influence (bone name pose : String) : evalTime bone name ≠ influence pose := by
  simp [evalTime, ofConstraint, influence]

end Path

namespace Preferences

theorem isCompiledPath_evalTime (prefs : Preferences) (bone name : String) :
    prefs.isCompiledPath (Path.evalTime bone name) = prefs.isCompiled name := by
  simp [isCompiledPath]

theorem isCompiledPath_influence (prefs : Preferences) (pose : String) :
    prefs.isCompiledPath (Path.influence pose) = true := by
  simp [isCompiledPath]

end Preferences

end PoseRig
