import PoseRig.Network.Inputs

/-!
# Poses nested in a combo

The simple poses that a combo reaches through its parts, breadth first, each once. A part that names
a pose on the way to it is a cycle; one that names no pose is skipped.
-/

set_option autoImplicit false

namespace PoseRig.Library

def addFound (found : List Pose) (p : Pose) : List Pose :=
  if found.any fun q => q.name == p.name then found else found ++ [p]

def partSteps : Nat → Nat
  | 0 => 1
  | n + 1 => 2 * partSteps n + 1

theorem partSteps_pos (n : Nat) : 0 < partSteps n := by cases n <;> simp [partSteps]

theorem two_partSteps_lt {m n : Nat} (h : m < n) : 2 * partSteps m < partSteps n := by
  induction n with
  | zero => omega
  | succ n ih =>
    rcases Nat.lt_succ_iff_lt_or_eq.mp h with h | h
    · have := ih h
      simp only [partSteps]; omega
    · subst h
      simp only [partSteps]; omega

/-- A bound on the steps that parts with their ancestors still take. -/
def pending (l : Library) : List (String × List String) → Nat
  | [] => 0
  | q :: r => partSteps (l.unvisited q.2) + pending l r

theorem pending_append (l : Library) (q r : List (String × List String)) :
    l.pending (q ++ r) = l.pending q + l.pending r := by
  induction q with
  | nil => simp [pending]
  | cons g q ih => simp only [List.cons_append, pending, ih]; omega

theorem pending_reverse (l : Library) (q : List (String × List String)) :
    l.pending q.reverse = l.pending q := by
  induction q with
  | nil => rfl
  | cons g q ih =>
    simp only [List.reverse_cons, pending_append, pending, ih]
    omega

theorem name_of_part? {l : Library} {part : String} {p : Pose} (h : l.part? part = some p) :
    p.name = part := by
  unfold part? at h
  split at h
  · simp at h
  · exact (mem_of_find? h).2

/-- Works off one level of parts with their ancestors, adding the simple poses found to `found`. The
parts of the combos found are the next level, held reversed in `next`. -/
def nestedFrom (l : Library) (level next : List (String × List String)) (found : List Pose) :
    Except Fault (List Pose) :=
  match level with
  | [] =>
    match _hnext : next with
    | [] => .ok found
    | _ :: _ => nestedFrom l next.reverse [] found
  | (part, ancestors) :: rest =>
    if _hn : part ∈ ancestors then .error (.comboCycle (ancestors ++ [part]))
    else
      match _h : l.part? part with
      | none => nestedFrom l rest next found
      | some p =>
        match p.kind with
        | .simple => nestedFrom l rest next (addFound found p)
        | .combo =>
          let path := ancestors ++ [p.name]
          nestedFrom l rest ((p.partB, path) :: (p.partA, path) :: next) found
termination_by (l.pending level + l.pending next, next.length)
decreasing_by
  · subst _hnext
    rw [List.unattach_reverse, List.unattach_attach, pending_reverse,
      Nat.add_comm]
    exact Prod.Lex.right _ (by simp)
  · have := partSteps_pos (l.unvisited ancestors)
    exact Prod.Lex.left _ _ (by simp only [pending]; omega)
  · have := partSteps_pos (l.unvisited ancestors)
    exact Prod.Lex.left _ _ (by simp only [pending]; omega)
  · have hname := name_of_part? _h
    have hlt : l.unvisited (ancestors ++ [p.name]) < l.unvisited ancestors :=
      unvisited_lt (mem_of_part? _h) (by rw [hname]; exact _hn)
    have := two_partSteps_lt hlt
    exact Prod.Lex.left _ _ (by simp only [pending]; omega)

theorem nestedFrom_cons {l : Library} {part : String} {ancestors : List String}
    {rest next : List (String × List String)} {found : List Pose} (hnew : part ∉ ancestors) :
    l.nestedFrom ((part, ancestors) :: rest) next found =
      match l.part? part with
      | none => l.nestedFrom rest next found
      | some p =>
        match p.kind with
        | .simple => l.nestedFrom rest next (addFound found p)
        | .combo =>
          l.nestedFrom rest
            ((p.partB, ancestors ++ [p.name]) :: (p.partA, ancestors ++ [p.name]) :: next)
              found := by
  rw [nestedFrom, dif_neg hnew]
  generalize l.part? part = o
  cases o <;> rfl

def nested (l : Library) (p : Pose) : Except Fault (List Pose) :=
  l.nestedFrom [(p.partA, [p.name]), (p.partB, [p.name])] [] []

end PoseRig.Library
