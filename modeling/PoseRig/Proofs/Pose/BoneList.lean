import PoseRig.Pose.Bones
import PoseRig.Proofs.FirstOccurrence
import PoseRig.Proofs.Pose.Library
import PoseRig.Proofs.Scene.Object

/-!
# Bone lists

Adding bones to a pose, from the selection or from the groups of its action, appends an entry for
each bone that has none yet, once and in the order in which the bones come. So adding them again
adds nothing, and taking the selected bones out again leaves what was not selected before. Every
edit of the list puts the selected entry back inside it.
-/

set_option autoImplicit false

namespace PoseRig

namespace Pose

variable {p : Pose} {bones : List String} {b : String}

/-- The bones without an entry, each where it is listed first. -/
def unlisted (p : Pose) (bones : List String) : List String :=
  (bones.filter fun b => b ∉ p.boneNames).eraseDups

def append (p : Pose) (bones : List String) : Pose :=
  { p with bones := p.bones ++ bones.map fun b => { bone := b, influence := 1 } }

def without (p : Pose) (bones : List String) : Pose :=
  { p with bones := p.bones.filter fun e => !bones.contains e.bone }

theorem boneNames_append (p : Pose) (bones : List String) :
    (p.append bones).boneNames = p.boneNames ++ bones := by
  simp [boneNames, append, Function.comp_def]

theorem mem_unlisted : b ∈ p.unlisted bones ↔ b ∈ bones ∧ b ∉ p.boneNames := by
  simp [unlisted, List.mem_eraseDups]

theorem unlisted_append (p : Pose) (bones : List String) :
    (p.append (p.unlisted bones)).unlisted bones = [] := by
  apply List.eq_nil_iff_forall_not_mem.mpr
  intro b hb
  obtain ⟨hmem, hnew⟩ := mem_unlisted.mp hb
  rw [boneNames_append, List.mem_append, not_or] at hnew
  exact hnew.2 (mem_unlisted.mpr ⟨hmem, hnew.1⟩)

theorem addBones_eq (p : Pose) (bones : List String) :
    p.addBones bones = p.append (p.unlisted bones) := by
  have hfold : p.addBones bones = { p with
      bones :=
        bones.foldl (FirstOccurrence.addNew BoneEntry.bone fun b => { bone := b }) p.bones } := by
    unfold addBones
    refine List.foldl_hom (fun es => { p with bones := es }) fun es b => ?_
    have hiff : { p with bones := es }.hasBone b = true ↔ b ∈ es.map BoneEntry.bone :=
      List.contains_iff_mem
    unfold FirstOccurrence.addNew
    by_cases hb : b ∈ es.map BoneEntry.bone
    · rw [if_pos (hiff.mpr hb), if_pos hb]
    · rw [if_neg fun h => hb (hiff.mp h), if_neg hb]
  rw [hfold, FirstOccurrence.foldl_addNew BoneEntry.bone (fun b => { bone := b }) (fun _ => rfl)]
  rfl

theorem append_nil (p : Pose) : p.append [] = p := by
  rw [append, List.map_nil, List.append_nil]

theorem without_append_unlisted (p : Pose) (bones : List String) :
    (p.append (p.unlisted bones)).without bones = p.without bones := by
  have hnew : ((p.unlisted bones).map fun b => { bone := b, influence := 1 }).filter
      (fun e : BoneEntry => !bones.contains e.bone) = [] := by
    apply List.filter_eq_nil_iff.mpr
    intro e he
    obtain ⟨b, hb, rfl⟩ := List.mem_map.mp he
    simpa using (mem_unlisted.mp hb).1
  rw [without, without, append, List.filter_append, hnew, List.append_nil]

end Pose

namespace Library

variable {l l' : Library} {s : Scene} {rig : String} {a : Armature} {p : Pose} {index n : Nat}
  {bones : List String}

theorem get_setBones (hp : l.get index = .ok p) (p' : Pose) (selected : Nat) :
    (l.setBones index p' selected).get index = .ok p' := by
  obtain ⟨hlt, -⟩ := List.getElem?_eq_some_iff.mp (get_eq_ok.mp hp)
  apply get_eq_ok.mpr
  simp [setBones, setPose, hlt]

@[simp] theorem setBones_setBones (l : Library) (index : Nat) (p p' : Pose) (n k : Nat) :
    (l.setBones index p n).setBones index p' k = l.setBones index p' k := by
  simp [setBones, setPose]

theorem addBones_eq (hp : l.get index = .ok p) (bones : List String) :
    l.addBones index bones = .ok ((p.unlisted bones).length,
      l.setBones index (p.append (p.unlisted bones))
        ((p.append (p.unlisted bones)).bones.length - 1)) := by
  have hlength :
      (p.append (p.unlisted bones)).bones.length - p.bones.length = (p.unlisted bones).length := by
    simp [Pose.append]
  simp only [addBones, hp, Pose.addBones_eq, hlength]

theorem addBones_again (hp : l.get index = .ok p) (h : l.addBones index bones = .ok (n, l')) :
    l'.addBones index bones = .ok (0, l') := by
  rw [addBones_eq hp] at h
  cases h
  rw [addBones_eq (get_setBones hp _ _), Pose.unlisted_append, Pose.append_nil, setBones_setBones]
  rfl

theorem addSelectedBones_eq (ha : s.armature rig = .ok a) (l : Library) (index : Nat) :
    l.addSelectedBones s rig index = l.addBones index a.selected := by
  rw [addSelectedBones, ha]

theorem removeSelectedBones_eq (ha : s.armature rig = .ok a) (hp : l.get index = .ok p) :
    l.removeSelectedBones s rig index = .ok (p.bones.length - (p.without a.selected).bones.length,
      l.setBones index (p.without a.selected)
        (min l.bonesIndex ((p.without a.selected).bones.length - 1))) := by
  rw [removeSelectedBones, ha, hp]
  rfl

theorem addFromAction_ok {r : Nat × Library} (ha : s.armature rig = .ok a)
    (hp : l.get index = .ok p) (h : l.addFromAction s rig index = .ok r) :
    ∃ groups, s.actionGroups p = .ok groups ∧
      l.addBones index (groups.filter a.bones.contains) = .ok r := by
  simp only [addFromAction, hp, ha] at h
  split at h
  · cases h
  · rename_i groups hgroups
    exact ⟨groups, hgroups, h⟩

theorem addFromAction_eq {groups : List String} (ha : s.armature rig = .ok a)
    (hp : l.get index = .ok p) (hgroups : s.actionGroups p = .ok groups) :
    l.addFromAction s rig index = l.addBones index (groups.filter a.bones.contains) := by
  simp only [addFromAction, hp, hgroups, ha]

inductive BoneEdit where
  | addEntry
  | removeEntry (entry : Nat)
  | removeAll
  | addSelected
  | removeSelected
  | addFromAction

def editBones (l : Library) (s : Scene) (rig : String) (index : Nat) :
    BoneEdit → Except Fault Library
  | .addEntry => (l.addBoneEntry index).map Prod.snd
  | .removeEntry entry => (l.removeBoneEntry index entry).map Prod.snd
  | .removeAll => (l.removeAllBones index).map Prod.snd
  | .addSelected => (l.addSelectedBones s rig index).map Prod.snd
  | .removeSelected => (l.removeSelectedBones s rig index).map Prod.snd
  | .addFromAction => (l.addFromAction s rig index).map Prod.snd

/-- The selected entry is one of the pose at a position, the first if the pose has none. -/
def SelectsEntry (l : Library) (index : Nat) : Prop :=
  ∃ p, l.get index = .ok p ∧ (l.bonesIndex < p.bones.length ∨ p.bones = [] ∧ l.bonesIndex = 0)

theorem selectsEntry_setBones (hp : l.get index = .ok p) {p' : Pose} {selected : Nat}
    (h : selected ≤ p'.bones.length - 1) : (l.setBones index p' selected).SelectsEntry index := by
  refine ⟨p', get_setBones hp p' selected, ?_⟩
  rw [← List.length_eq_zero_iff]
  show selected < p'.bones.length ∨ p'.bones.length = 0 ∧ selected = 0
  omega

theorem selectsEntry_addBones (h : (l.addBones index bones).map Prod.snd = .ok l') :
    l'.SelectsEntry index := by
  cases hp : l.get index with
  | error e => simp [addBones, hp, Except.map] at h
  | ok p =>
    rw [addBones_eq hp] at h
    cases h
    exact selectsEntry_setBones hp (Nat.le_refl _)

theorem selectsEntry_editBones (ha : s.armature rig = .ok a) (hp : l.get index = .ok p)
    (c : BoneEdit) (h : l.editBones s rig index c = .ok l') : l'.SelectsEntry index := by
  cases c with
  | addEntry =>
    simp only [editBones, addBoneEntry, hp] at h
    cases h
    exact selectsEntry_setBones hp (by simp)
  | removeEntry entry =>
    simp only [editBones, removeBoneEntry, hp] at h
    cases hentry : p.bones[entry]? with
    | none => simp [hentry, Except.map] at h
    | some b =>
      simp only [hentry] at h
      cases h
      obtain ⟨hlt, -⟩ := List.getElem?_eq_some_iff.mp hentry
      apply selectsEntry_setBones hp
      rw [List.length_eraseIdx_of_lt hlt]
      omega
  | removeAll =>
    simp only [editBones, removeAllBones, hp] at h
    cases h
    exact selectsEntry_setBones hp (Nat.zero_le _)
  | addSelected =>
    rw [editBones, addSelectedBones_eq ha] at h
    exact selectsEntry_addBones h
  | removeSelected =>
    rw [editBones, removeSelectedBones_eq ha hp] at h
    cases h
    exact selectsEntry_setBones hp (Nat.min_le_right _ _)
  | addFromAction =>
    cases hadd : l.addFromAction s rig index with
    | error e => simp [editBones, hadd, Except.map] at h
    | ok r =>
      obtain ⟨groups, -, hbones⟩ := addFromAction_ok ha hp hadd
      rw [editBones, hadd, ← hbones] at h
      exact selectsEntry_addBones h

/-- Adding the selected bones, or those keyed in the action of a pose, keeps its entries and appends
one of full influence for each such bone without an entry, in their order and counted; doing it
again appends none. Taking out what is selected, after adding it, leaves the former entries of other
bones. Whatever edit of the list succeeds, the selected entry is inside it afterwards. -/
theorem bones_listed_once (l : Library) (s : Scene) (rig : String) (index : Nat) (a : Armature)
    (p : Pose) (ha : s.armature rig = .ok a) (hp : l.get index = .ok p) :
    (∀ bones, (p.unlisted bones).Nodup ∧ ∀ b, b ∈ p.unlisted bones ↔ b ∈ bones ∧ b ∉ p.boneNames) ∧
    (∃ l', l.addSelectedBones s rig index = .ok ((p.unlisted a.selected).length, l') ∧
      l'.poses = l.poses.set index (p.append (p.unlisted a.selected)) ∧
      l'.addSelectedBones s rig index = .ok (0, l') ∧
      ∃ n l'', l'.removeSelectedBones s rig index = .ok (n, l'') ∧
        l''.poses = l.poses.set index (p.without a.selected)) ∧
    (∀ n l', l.addFromAction s rig index = .ok (n, l') → ∃ groups, s.actionGroups p = .ok groups ∧
      n = (p.unlisted (groups.filter a.bones.contains)).length ∧
      l'.poses = l.poses.set index (p.append (p.unlisted (groups.filter a.bones.contains))) ∧
      l'.addFromAction s rig index = .ok (0, l')) ∧
    ∀ c l', l.editBones s rig index c = .ok l' → l'.SelectsEntry index := by
  refine ⟨fun bones => ?_, ?_, fun n l' h => ?_, fun c l' => selectsEntry_editBones ha hp c⟩
  · exact ⟨FirstOccurrence.nodup_eraseDups _, fun b => Pose.mem_unlisted⟩
  · have hadd := addBones_eq hp a.selected
    have hp' := get_setBones hp (p.append (p.unlisted a.selected))
      ((p.append (p.unlisted a.selected)).bones.length - 1)
    simp only [addSelectedBones_eq ha]
    refine ⟨_, hadd, rfl, addBones_again hp hadd, _, _, removeSelectedBones_eq ha hp', ?_⟩
    rw [Pose.without_append_unlisted, setBones_setBones]
    rfl
  · obtain ⟨groups, hgroups, hadd⟩ := addFromAction_ok ha hp h
    have hagain := addBones_again hp hadd
    rw [addBones_eq hp] at hadd
    cases hadd
    refine ⟨groups, hgroups, rfl, rfl, ?_⟩
    have hkept :
        s.actionGroups (p.append (p.unlisted (groups.filter a.bones.contains))) = .ok groups :=
      hgroups
    exact (addFromAction_eq ha (get_setBones hp _ _) hkept).trans hagain

def smileRig : Scene where
  objects := .ofList [("Rig", { kind := .armature, armature := some { bones := .ofList [("Jaw", {}),
      ("LipL", { select := true }), ("LipR", { select := true }), ("Brow", {})] } })]
  actions := .ofList [("Smile", { groups := ["Jaw", "LipR", "Tongue", "Jaw"] })]

def smileLists : Library where
  poses := [{ Pose.ofName "Smile" with
    action := some "Smile", bones := [⟨"LipR", 0⟩, ⟨"", 1⟩, ⟨"LipR", 1⟩] }]
  bonesIndex := 7

theorem bones_listed_once_smile :
    ∃ a p, smileRig.armature "Rig" = .ok a ∧ smileLists.get 0 = .ok p ∧
      p.unlisted a.selected = ["LipL"] ∧
      (∃ l', smileLists.addSelectedBones smileRig "Rig" 0 = .ok (1, l') ∧
        l'.addSelectedBones smileRig "Rig" 0 = .ok (0, l')) ∧
      (∃ l', smileLists.addFromAction smileRig "Rig" 0 = .ok (1, l') ∧
        l'.poses.map Pose.boneNames = [["LipR", "", "LipR", "Jaw"]]) ∧
      ∃ l', smileLists.editBones smileRig "Rig" 0 .removeSelected = .ok l' ∧ l'.SelectsEntry 0 := by
  obtain ⟨-, ⟨l', hadd, -, hagain, -⟩, haction, hselects⟩ :=
    bones_listed_once smileLists smileRig "Rig" 0 _ _ rfl rfl
  obtain ⟨groups, hgroups, -, hposes, -⟩ := haction 1 _ rfl
  obtain rfl : ["Jaw", "LipR", "Tongue", "Jaw"] = groups := Except.ok.inj hgroups
  exact ⟨_, _, rfl, rfl, by decide, ⟨l', hadd, hagain⟩, ⟨_, rfl, by rw [hposes]; decide⟩, _, rfl,
    hselects .removeSelected _ rfl⟩

end Library

end PoseRig
