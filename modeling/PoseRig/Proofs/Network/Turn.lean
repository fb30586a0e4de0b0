import PoseRig.Proofs.Network.Layout

/-!
# The turn of a pose in a build

A pose of the library that a build comes to and builds leaves its entry in the ledger of the rig.
The turns before it, its own and the turns after it are laid out one after the other.
-/

set_option autoImplicit false

namespace PoseRig.Network

variable {prefs : Preferences} {rig : String} {l : Library} {s s' : Scene} {o o₁ : Object}
  {a a₁ : Armature} {built : List Built}

theorem Laid.buildEach (h : Laid prefs.blendMode o a built o₁ a₁) (ho : s.object rig = .ok o₁)
    (l : Library) {ps : List Pose}
    (hnames : ((built.map fun e => e.pose.name) ++ ps.map Pose.name).Nodup) :
    ∃ report n s' more o' a', buildEach prefs rig l ps s = (.ok (report, n), s') ∧
      s'.object rig = .ok o' ∧ Laid prefs.blendMode o a (built ++ more) o' a' ∧
      (more.map Built.pose).Sublist ps := by
  obtain ⟨rounds, report, s', rfl, hlinked, hgated, hb, -⟩ :=
    buildEach_rounds prefs l ps (Scene.armature_of_object ho h.armature)
  obtain ⟨more, o', a', rfl, h', hmore, -⟩ :=
    h.rounds ho hlinked hgated (by rwa [List.map_map] at hnames)
  refine ⟨report, _, _, more, o', a', hb, Scene.object_setObject _ _ _, h', ?_⟩
  rw [hmore]
  exact List.filter_sublist.map Round.pose

/-- A pose that a build of the library comes to and builds, with the scene on which its turn comes,
its inputs, and the armature that its constraints are placed on. -/
structure Turn (prefs : Preferences) (rig : String) (l : Library) (s : Scene) where
  before : List Pose
  pose : Pose
  after : List Pose
  scene : Scene
  inputs : List Input
  armature : Armature
  poses_eq : l.poses = before ++ pose :: after
  reached : ∃ counts purged report n, purge prefs rig s = .ok (counts, purged) ∧
    buildEach prefs rig l before purged = (.ok (report, n), scene)
  built : ∃ report next, build prefs rig l pose scene = .ok (report, true, next)
  inputs_eq : l.inputs pose = .ok inputs
  armature_eq : scene.armature rig = .ok armature

namespace Turn

def installed (t : Turn prefs rig l s) : Installed :=
  Installed.onto prefs t.pose t.inputs t.armature

def placed (t : Turn prefs rig l s) : List (String × String) := t.installed.placed

end Turn

end PoseRig.Network
