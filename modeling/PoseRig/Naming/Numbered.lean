import PoseRig.Number.Bounds

/-!
# Numbered names

A name that is taken gets a number: its stem, a point and the least positive number that is free,
with at least three digits. The stem is the name without a number of exactly three digits that it
already ends in. The numbers come from a counter of thirty-two bits; among one more candidate than
there are taken names one is free, so names that are listed never use it up.
-/

set_option autoImplicit false

namespace PoseRig.Naming

def threeDigits (n : Nat) : String :=
  let ds := Nat.toDigits 10 n
  String.ofList (List.replicate (3 - ds.length) '0' ++ ds)

/-- The characters before a final point and exactly three decimal digits, if a name ends so. -/
def stemChars (cs : List Char) : List Char :=
  match cs.reverse with
  | c :: b :: a :: '.' :: r => if a.isDigit && b.isDigit && c.isDigit then r.reverse else cs
  | _ => cs

def stem (name : String) : String := String.ofList (stemChars name.toList)

def candidate (name : String) (n : Nat) : String := stem name ++ "." ++ threeDigits n

def firstFree? (taken : String → Bool) (name : String) : Nat → Nat → Option String
  | 0, _ => none
  | tries + 1, n =>
    if taken (candidate name n) then firstFree? taken name tries (n + 1)
    else some (candidate name n)

/-- The name itself when free, else its first numbered variant that is. There is none once the
counter has run out. -/
def uniqueName? (taken : String → Bool) (name : String) : Option String :=
  if taken name then firstFree? taken name Bounds.counter 1 else some name

/-- The name that is found beside names in a list, which the counter outlasts. -/
def fresh (taken : List String) (name : String) : String :=
  if name ∈ taken then (firstFree? taken.contains name (taken.length + 1) 1).getD name else name

theorem fresh_of_not_mem {taken : List String} {name : String} (h : name ∉ taken) :
    fresh taken name = name := by simp [fresh, h]

end PoseRig.Naming
