/-!
# Bounds of stored integers

Indices are unsigned and take sixty-four bits; whole values are signed and take as many; frames are
signed and take thirty-two. Each bound is the first number that no longer fits. A counter from one
on is signed, takes thirty-two bits and is advanced before a number is used, so it never gives the
last one that fits.
-/

set_option autoImplicit false

namespace PoseRig.Bounds

def index : Nat := 0x10000000000000000

def long : Int := 0x8000000000000000

def frame : Int := 0x80000000

/-- How many numbers a counter gives. -/
def counter : Nat := 0x7FFFFFFE

end PoseRig.Bounds
