import PoseRig.Network.Build
import PoseRig.Proofs.Scene.Object

/-!
# What compiling and building can do

Collecting inputs fails only on a cycle, so on a rig with an armature a pose is compiled or left out
and building never fails. A built library is a run of successful compilations from the purged scene.
-/

set_option autoImplicit false

namespace PoseRig

namespace Library

theorem bind_append_ok {x y : Except Fault (List Input)} {inputs : List Input}
    (h : (do let first ← x; let second ← y; return first ++ second) = .ok inputs) :
    ∃ first second, x = .ok first ∧ y = .ok second ∧ inputs = first ++ second := by
  cases x with
  | error e => cases h
  | ok first =>
    cases y with
    | error e => cases h
    | ok second => exact ⟨first, second, rfl, rfl, (Except.ok.inj h).symm⟩

theorem bind_append_error {x y : Except Fault (List Input)} {e : Fault}
    (h : (do let first ← x; let second ← y; return first ++ second) = .error e) :
    x = .error e ∨ y = .error e := by
  cases x with
  | error e' => exact Or.inl h
  | ok first =>
    cases y with
    | error e' => exact Or.inr h
    | ok second => cases h

theorem partInputs_error {l : Library} {path : List String} {part : String} {e : Fault}
    (h : l.partInputs path part = .error e) : ∃ chain, e = .comboCycle chain := by
  fun_induction l.partInputs path part with
  | case1 => simp at h
  | case2 => simp at h
  | case3 path part p hp hk hn =>
    exact ⟨_, (Except.error.inj h).symm⟩
  | case4 path part p hp hk hn ih₁ ih₂ =>
    rcases bind_append_error h with h | h
    · exact ih₁ h
    · exact ih₂ h

theorem inputs_error {l : Library} {p : Pose} {e : Fault} (h : l.inputs p = .error e) :
    ∃ chain, e = .comboCycle chain := by
  unfold inputs at h
  cases hk : p.kind with
  | simple => simp [hk] at h
  | combo =>
    rw [hk] at h
    rcases bind_append_error h with h | h
    · exact partInputs_error h
    · exact partInputs_error h

end Library

namespace Network

variable {prefs : Preferences} {rig : String} {l : Library} {p : Pose} {s s' : Scene}
  {report : Report}

theorem compile_eq_ok :
    compile prefs rig l p s = .ok (report, s') ↔
      ∃ inputs o a, l.inputs p = .ok inputs ∧ s.object rig = .ok o ∧ o.armature = some a ∧
        report = (install prefs inputs p a o).1 ∧
        s' = s.setObject rig (install prefs inputs p a o).2 := by
  constructor
  · intro h
    unfold compile at h
    cases hin : l.inputs p with
    | error e => simp [hin] at h
    | ok inputs =>
      cases ho : s.object rig with
      | error e => simp [hin, ho] at h
      | ok o =>
        cases ha : s.armature rig with
        | error e => simp [hin, ho, ha] at h
        | ok a =>
          obtain ⟨o', ho', ha'⟩ := Scene.object_of_armature ha
          obtain rfl := Except.ok.inj (ho.symm.trans ho')
          simp only [hin, ho, ha, Except.ok.injEq, Prod.mk.injEq] at h
          exact ⟨inputs, o, a, rfl, rfl, ha', h.1.symm, h.2.symm⟩
  · rintro ⟨inputs, o, a, hin, ho, ha, rfl, rfl⟩
    simp [compile, hin, ho, Scene.armature_of_object ho ha]

theorem compile_error {e : Fault} {a : Armature} (ha : s.armature rig = .ok a)
    (h : compile prefs rig l p s = .error e) :
    ∃ chain, e = .comboCycle chain ∧ l.inputs p = .error (.comboCycle chain) := by
  obtain ⟨o, ho, hoa⟩ := Scene.object_of_armature ha
  cases hin : l.inputs p with
  | error e' =>
    obtain ⟨chain, rfl⟩ := Library.inputs_error hin
    have he : .comboCycle chain = e := by simpa [compile, hin] using h
    exact ⟨chain, he.symm, rfl⟩
  | ok inputs =>
    have hok : compile prefs rig l p s = .ok (_, _) :=
      compile_eq_ok.mpr ⟨inputs, o, a, hin, ho, hoa, rfl, rfl⟩
    rw [hok] at h
    cases h

theorem build_cases (prefs : Preferences) (l : Library) (p : Pose) {a : Armature}
    (ha : s.armature rig = .ok a) :
    (∃ report, build prefs rig l p s = .ok (report, false, s)) ∨
      ∃ report s', compile prefs rig l p s = .ok (report, s') ∧
        build prefs rig l p s = .ok (report, true, s') := by
  unfold build
  by_cases hflag : p.build = true
  · rw [if_pos hflag]
    cases hinv : p.invalid? s with
    | some reason => exact Or.inl ⟨_, rfl⟩
    | none =>
      cases hc : compile prefs rig l p s with
      | ok r => exact Or.inr ⟨r.1, r.2, rfl, rfl⟩
      | error e =>
        obtain ⟨chain, rfl, -⟩ := compile_error ha hc
        exact Or.inl ⟨_, rfl⟩
  · exact Or.inl ⟨{}, if_neg hflag⟩

theorem view_foldl_bindBlend {α : Type} (view : Object → α)
    (hview : ∀ o d, view (o.addDriver d) = view o) (mode : BlendMode) (inputs : List Input)
    (paths : List Path) (o : Object) : view (paths.foldl (bindBlend mode inputs) o) = view o := by
  induction paths generalizing o with
  | nil => rfl
  | cons path r ih =>
    rw [List.foldl_cons, ih, bindBlend]
    cases blendDriver? mode inputs path with
    | none => rfl
    | some d => exact hview o d

theorem armature_install (prefs : Preferences) (inputs : List Input) (p : Pose) (a : Armature)
    (o : Object) :
    (install prefs inputs p a o).2.armature =
      some (place p (prefs.constraintName p.name) 0 p.bones a).armature :=
  view_foldl_bindBlend Object.armature (fun _ _ => rfl) _ _ _ _

theorem kind_install (prefs : Preferences) (inputs : List Input) (p : Pose) (a : Armature)
    (o : Object) : (install prefs inputs p a o).2.kind = o.kind :=
  view_foldl_bindBlend Object.kind (fun _ _ => rfl) _ _ _ _

theorem armature_compile (h : compile prefs rig l p s = .ok (report, s')) :
    ∃ a, s'.armature rig = .ok a := by
  obtain ⟨inputs, o, a, -, -, -, -, rfl⟩ := compile_eq_ok.mp h
  exact ⟨_, Scene.armature_of_object (Scene.object_setObject _ _ _)
    (armature_install prefs inputs p a o)⟩

/-- Successful compilations one after the other, each pose with the library it refers to. -/
def compileEach (prefs : Preferences) (rig : String) :
    List (Library × Pose) → Scene → Except Fault Scene
  | [], s => .ok s
  | (l, p) :: r, s =>
    match compile prefs rig l p s with
    | .error e => .error e
    | .ok (_, s') => compileEach prefs rig r s'

theorem buildEach_ok (prefs : Preferences) (l : Library) (ps : List Pose) {a : Armature}
    (ha : s.armature rig = .ok a) :
    ∃ report n s', buildEach prefs rig l ps s = (.ok (report, n), s') ∧
      ∃ calls, compileEach prefs rig calls s = .ok s' := by
  induction ps generalizing s a with
  | nil => exact ⟨{}, 0, s, rfl, [], rfl⟩
  | cons p r ih =>
    rcases build_cases prefs l p ha with ⟨report, hb⟩ | ⟨report, s₁, hc, hb⟩
    · obtain ⟨rest, n, s', hr, calls, hcalls⟩ := ih ha
      exact ⟨report ++ rest, n, s', by simp [buildEach, hb, hr], calls, hcalls⟩
    · obtain ⟨a₁, ha₁⟩ := armature_compile hc
      obtain ⟨rest, n, s', hr, calls, hcalls⟩ := ih ha₁
      exact ⟨report ++ rest, n + 1, s', by simp [buildEach, hb, hr], (l, p) :: calls,
        by simp [compileEach, hc, hcalls]⟩

section Preserves

variable {P : Scene → Prop}

theorem build_preserves {built : Bool}
    (hcompile : ∀ report s', compile prefs rig l p s = .ok (report, s') → P s') (h : P s)
    (hb : build prefs rig l p s = .ok (report, built, s')) : P s' := by
  unfold build at hb
  split at hb
  · split at hb
    · cases hb
      exact h
    · split at hb
      · cases hb
        exact hcompile _ _ ‹_›
      · cases hb
        exact h
      · cases hb
  · cases hb
    exact h

/-- What compiling each of the poses preserves, building them preserves, also when it fails
half way. -/
theorem buildEach_preserves (prefs : Preferences) (rig : String) (l : Library) (ps : List Pose)
    (hcompile : ∀ p ∈ ps, ∀ s report s', P s → compile prefs rig l p s = .ok (report, s') → P s')
    (h : P s) : P (buildEach prefs rig l ps s).2 := by
  induction ps generalizing s with
  | nil => exact h
  | cons p r ih =>
    obtain ⟨hp, hr⟩ := List.forall_mem_cons.mp hcompile
    unfold buildEach
    split
    · exact h
    · rename_i built s₁ hbuild
      have hrest := ih hr (build_preserves (fun report s' => hp s report s' h) h hbuild)
      split
      · simpa [*] using hrest
      · simpa [*] using hrest

theorem rebuild_preserves (prefs : Preferences) (rig : String) (l : Library)
    (hpurge : ∀ counts s', purge prefs rig s = .ok (counts, s') → P s')
    (hcompile :
      ∀ p ∈ l.poses, ∀ s report s', P s → compile prefs rig l p s = .ok (report, s') → P s')
    (h : P s) : P (rebuild prefs rig l s).2 := by
  unfold rebuild
  split
  · exact h
  · rename_i s₁ hpurged
    have hbuilt := buildEach_preserves prefs rig l l.poses hcompile (hpurge _ _ hpurged)
    split
    · simpa [*] using hbuilt
    · simpa [*] using hbuilt

theorem compileAll_preserves (prefs : Preferences) (rig : String) (l : Library) (session : Session)
    (hrebuild : ∀ s, P s → P (rebuild prefs rig l s).2)
      (h : P (Edit.leave prefs rig session s).2.2) :
    P (compileAll prefs rig l session s).2.2 := by
  cases session with
  | idle => exact hrebuild s h
  | editing taken =>
    simp only [compileAll, Session.isEditing, if_true]
    split
    · rename_i hleave
      rwa [hleave] at h
    · rename_i hleave
      rw [hleave] at h
      have hbuilt := hrebuild _ h
      split
      · simpa [*] using hbuilt
      · simpa [*] using hbuilt

end Preserves

end Network

end PoseRig
