/-!
# Side suffixes

Names of paired things end in a left or a right suffix; swapping exchanges the two. The left suffix
is tried first, and an empty suffix marks no side.
-/

set_option autoImplicit false

namespace PoseRig.Naming

/-- The characters before a given ending, which must not be empty. -/
def withoutEnding? (ending cs : List Char) : Option (List Char) :=
  if !ending.isEmpty && ending.isSuffixOf cs then some (cs.take (cs.length - ending.length))
  else none

def swapSideChars (left right cs : List Char) : List Char :=
  match withoutEnding? left cs with
  | some stem => stem ++ right
  | none =>
    match withoutEnding? right cs with
    | some stem => stem ++ left
    | none => cs

def swapSide (left right name : String) : String :=
  String.ofList (swapSideChars left.toList right.toList name.toList)

end PoseRig.Naming
