import PoseRig.Proofs.Naming.Side
import PoseRig.Proofs.Pose.Arrangement
import PoseRig.Proofs.Pose.Library

/-!
# The other side of the other side

A reference crosses to the other side when its counterpart is there, and crosses back when it is
itself there to come back to. So a pose all of whose references are there in pairs, or on neither
side, is its own other side's other side, but for its name, which has to be free.
-/

set_option autoImplicit false

namespace PoseRig

open Naming (SidesApart)

namespace Preferences

/-- The name is on neither side, or it is there along with its counterpart. -/
def Paired (prefs : Preferences) (existing : String → Bool) (name : String) : Prop :=
  prefs.swapSide name = name ∨ existing name = true ∧ existing (prefs.swapSide name) = true

instance (prefs : Preferences) (existing : String → Bool) (name : String) :
    Decidable (prefs.Paired existing name) :=
  inferInstanceAs (Decidable (_ ∨ _))

/-- The counterpart if it is there, else the name itself. -/
def across (prefs : Preferences) (existing : String → Bool) (name : String) : String :=
  (prefs.opposite? existing name).getD name

variable {prefs : Preferences} {existing existing' : String → Bool} {name : String}

theorem across_of_exists (h : existing (prefs.swapSide name) = true) :
    prefs.across existing name = prefs.swapSide name := by
  by_cases hsame : prefs.swapSide name = name
  · simp [across, opposite?, hsame]
  · simp [across, opposite?, hsame, h]

theorem across_of_same (h : prefs.swapSide name = name) : prefs.across existing name = name := by
  simp [across, opposite?, h]

theorem across_of_none (prefs : Preferences) (name : String) :
    prefs.across (fun _ => false) name = name := by
  simp [across, opposite?]

theorem Paired.mono (h : prefs.Paired existing name)
    (hmore : ∀ n, existing n = true → existing' n = true) : prefs.Paired existing' name :=
  h.imp id fun hboth => ⟨hmore _ hboth.1, hmore _ hboth.2⟩

theorem across_across (hsides : SidesApart prefs.leftSuffix prefs.rightSuffix)
    (h : prefs.Paired existing name) (h' : prefs.Paired existing' name) :
    prefs.across existing' (prefs.across existing name) = name := by
  have hback : prefs.swapSide (prefs.swapSide name) = name := hsides.swapSide_swapSide name
  rcases h with hsame | ⟨-, hthere⟩
  · rw [across_of_same hsame, across_of_same hsame]
  · rw [across_of_exists hthere]
    rcases h' with hsame | ⟨hself, -⟩
    · rw [hsame, across_of_same hsame]
    · have hthere' : existing' (prefs.swapSide (prefs.swapSide name)) = true := by rwa [hback]
      rw [across_of_exists hthere', hback]

end Preferences

def Scene.hasBone (s : Scene) (object bone : String) : Bool :=
  match s.armature object with
  | .ok a => a.bones.contains bone
  | .error _ => false

theorem Scene.oppositeBone?_getD (s : Scene) (prefs : Preferences) (object bone : String) :
    (s.oppositeBone? prefs object bone).getD bone = prefs.across (s.hasBone object) bone := by
  unfold oppositeBone? hasBone
  cases s.armature object with
  | error e => exact (prefs.across_of_none bone).symm
  | ok a => rfl

namespace Library

variable {l l' : Library} {s : Scene} {rig : String} {prefs : Preferences}
  {p q : Pose} {index : Nat}

def hasPose (l : Library) (name : String) : Bool := (l.find? name).isSome

theorem hasPose_iff {name : String} : l.hasPose name = true ↔ ∃ p ∈ l.poses, p.name = name := by
  simp [hasPose, find?, List.find?_isSome]

theorem hasPose_of_subset (h : l.poses ⊆ l'.poses) (name : String) (hname : l.hasPose name = true) :
    l'.hasPose name = true := by
  obtain ⟨p, hp, hpname⟩ := hasPose_iff.mp hname
  exact hasPose_iff.mpr ⟨p, h hp, hpname⟩

def targetAcross (s : Scene) (prefs : Preferences) (target : Option String) : Option String :=
  target.map (prefs.across s.hasObject)

/-- Every reference of a pose is paired where it is looked up. The driving bone is looked up
twice: on the way in the armature of the target on the other side, on the way back in that of
the target itself. -/
structure Paired (l : Library) (s : Scene) (rig : String) (prefs : Preferences)
    (p : Pose) : Prop where
  target : ∀ t, p.target = some t → prefs.Paired s.hasObject t
  boneOnWay : prefs.Paired (s.hasBone (boneOwner s rig (targetAcross s prefs p.target))) p.bone
  boneOnWayBack : prefs.Paired (s.hasBone (boneOwner s rig p.target)) p.bone
  action : ∀ a, p.action = some a → prefs.Paired s.hasAction a
  bones : ∀ e ∈ p.bones, prefs.Paired (s.hasBone rig) e.bone
  partA : prefs.Paired l.hasPose p.partA
  partB : prefs.Paired l.hasPose p.partB

theorem oppositeOf_eq (l : Library) (s : Scene) (rig : String) (prefs : Preferences) (p : Pose) :
    l.oppositeOf s rig prefs p =
      { p.duplicate with
        name := l.freshName (prefs.swapSide p.name)
        target := targetAcross s prefs p.target
        bone := prefs.across (s.hasBone (boneOwner s rig (targetAcross s prefs p.target))) p.bone
        action := p.action.map (prefs.across s.hasAction)
        bones := p.bones.map fun e => { e with bone := prefs.across (s.hasBone rig) e.bone }
        partA := prefs.across l.hasPose p.partA
        partB := prefs.across l.hasPose p.partB } := by
  unfold oppositeOf
  simp only [Scene.oppositeBone?_getD]
  rfl

theorem map_across_across {existing : String → Bool} {reference : Option String}
    (hsides : SidesApart prefs.leftSuffix prefs.rightSuffix)
    (h : ∀ name, reference = some name → prefs.Paired existing name) :
    (reference.map (prefs.across existing)).map (prefs.across existing) = reference := by
  cases reference with
  | none => rfl
  | some name =>
    have hname := h name rfl
    rw [Option.map_some, Option.map_some, Preferences.across_across hsides hname hname]

theorem Paired.oppositeOf_oppositeOf (h : l.Paired s rig prefs p)
    (hsides : SidesApart prefs.leftSuffix prefs.rightSuffix) (hmore : l.poses ⊆ l'.poses) :
    (l'.oppositeOf s rig prefs (l.oppositeOf s rig prefs p)).unnamed = p.duplicate.unnamed := by
  have htarget : targetAcross s prefs (targetAcross s prefs p.target) = p.target :=
    map_across_across hsides h.target
  have hbone := Preferences.across_across hsides h.boneOnWay h.boneOnWayBack
  have haction := map_across_across hsides h.action
  have hbones : (p.bones.map fun e => { e with bone := prefs.across (s.hasBone rig) e.bone }).map
      (fun e => { e with bone := prefs.across (s.hasBone rig) e.bone }) = p.bones := by
    rw [List.map_map]
    apply (List.map_congr_left _).trans (List.map_id' p.bones)
    intro e he
    have hentry := h.bones e he
    simp only [Function.comp_apply, Preferences.across_across hsides hentry hentry]
  -- the parts are looked up among more poses on the way back
  have hpartA := Preferences.across_across hsides h.partA (h.partA.mono (hasPose_of_subset hmore))
  have hpartB := Preferences.across_across hsides h.partB (h.partB.mono (hasPose_of_subset hmore))
  simp only [oppositeOf_eq, Pose.unnamed, Pose.duplicate, htarget, hbone, haction, hbones,
    hpartA, hpartB]

theorem addOpposite_of_getElem? (h : l.poses[index]? = some p) (s : Scene) (rig : String)
    (prefs : Preferences) :
    l.addOpposite s rig prefs index = .ok (l.insertAfter index (l.oppositeOf s rig prefs p)) := by
  rw [addOpposite, get_eq_ok.mpr h]

theorem getElem?_insertAfter (h : index < l.size) (p : Pose) :
    (l.insertAfter index p).poses[index + 1]? = some p := by
  rw [insertAfter, List.getElem?_insertIdx_self]
  exact if_pos h

/-- Where sides can be told apart, a pose that is put on the other side and from there on the other
side again gives, two places on, a copy of the pose under another name. -/
theorem addOpposite_addOpposite (l : Library) (s : Scene) (rig : String) (prefs : Preferences)
    (hsides : SidesApart prefs.leftSuffix prefs.rightSuffix) (index : Nat) (p : Pose)
    (hp : l.poses[index]? = some p) (h : l.Paired s rig prefs p) :
    ∃ l₁ l₂ q, l.addOpposite s rig prefs index = .ok l₁ ∧
      l₁.addOpposite s rig prefs (index + 1) = .ok l₂ ∧
      l₂.poses[index + 2]? = some q ∧ q.unnamed = p.duplicate.unnamed := by
  have hindex : index < l.size := (List.getElem?_eq_some_iff.mp hp).1
  have hmore := extra_insertAfter hindex (l.oppositeOf s rig prefs p)
  have hopposite := getElem?_insertAfter hindex (l.oppositeOf s rig prefs p)
  refine ⟨_, _, _, addOpposite_of_getElem? hp s rig prefs,
    addOpposite_of_getElem? hopposite s rig prefs, getElem?_insertAfter hmore.lt_length _, ?_⟩
  exact h.oppositeOf_oppositeOf hsides hmore.subset

def sidedScene : Scene where
  objects := .ofList
    [("Face.L",
        { kind := .armature
          armature := some { bones := .ofList [("Eye.L", {}), ("Eye.R", {})] } }),
      ("Face.R",
        { kind := .armature
          armature := some { bones := .ofList [("Eye.R", {}), ("Eye.L", {})] } }),
      ("Rig",
        { kind := .armature
          armature := some { bones := .ofList [("Lid.L", {}), ("Lid.R", {})] } })]
  actions := .ofList [("Blink.L", {}), ("Blink.R", {})]

def blinkLeft : Pose :=
  { Pose.ofChannel "Blink.L" "Face.L" "Eye.R" ⟨.rotation, .x⟩ with
    action := some "Blink.R"
    bones := [{ bone := "Lid.R", influence := 2 }, { bone := "Brow" }, { bone := "Lid.L" }]
    partA := "Squint.L"
    partB := "Gone"
    influence := 1 }

def sidedLibrary : Library where
  poses := [.ofName "Squint.R", blinkLeft, .ofName "Squint.L", .ofName "Blink.R"]

theorem addOpposite_addOpposite_blink :
    SidesApart ".L" ".R" ∧ sidedLibrary.Paired sidedScene "Rig" {} blinkLeft ∧
      ∃ l₁ l₂ q, sidedLibrary.addOpposite sidedScene "Rig" {} 1 = .ok l₁ ∧
        l₁.addOpposite sidedScene "Rig" {} 2 = .ok l₂ ∧
        l₂.poses[3]? = some q ∧ q.unnamed = blinkLeft.duplicate.unnamed := by
  have hsides : SidesApart ".L" ".R" := ⟨by decide, by decide, by decide, by decide⟩
  have hpaired : sidedLibrary.Paired sidedScene "Rig" {} blinkLeft := by
    constructor
    · rintro t ⟨⟩
      decide +kernel
    · decide +kernel
    · decide +kernel
    · rintro a ⟨⟩
      decide +kernel
    · decide +kernel
    · decide +kernel
    · decide +kernel
  exact ⟨hsides, hpaired, addOpposite_addOpposite sidedLibrary sidedScene "Rig" {} hsides
    1 blinkLeft rfl hpaired⟩

end Library

end PoseRig
