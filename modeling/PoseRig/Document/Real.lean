import PoseRig.Json.Basic

/-!
# Reals in stored documents

A stored document is written with any way of writing its reals. What reading gives back then rests
on one property of that way alone: that the reals of the document survive it.
-/

set_option autoImplicit false

namespace PoseRig.Document

abbrev RealWriter := Scalar → Json

end PoseRig.Document
