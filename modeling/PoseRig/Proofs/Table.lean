import PoseRig.Table

/-!
# Algebra of tables

Maps, filters and bindings of tables composed with each other. The order of the entries is part of
every equation, so two tables that these laws equate are the same table and not only the same
bindings.
-/

set_option autoImplicit false

namespace PoseRig

universe u v w

variable {α : Type u} {β : Type v} {γ : Type w}

namespace Entries

theorem mem_iff_get? {es : List (String × α)} (h : (names es).Nodup) (name : String) (a : α) :
    (name, a) ∈ es ↔ get? name es = some a := by
  induction es with
  | nil => simp [get?]
  | cons e r ih =>
    obtain ⟨hn, hr⟩ := List.nodup_cons.mp h
    by_cases he : e.1 = name
    · subst he
      have hfree : ∀ b, (e.1, b) ∉ r := fun b hb => hn (List.mem_map.mpr ⟨(e.1, b), hb, rfl⟩)
      simp [get?, hfree, Prod.ext_iff, eq_comm]
    · have he' : ¬ name = e.1 := fun x => he x.symm
      simp [get?, he, he', ih hr, Prod.ext_iff]

theorem lookup_eq_get? (es : List (String × α)) (name : String) :
    es.lookup name = get? name es := by
  induction es with
  | nil => rfl
  | cons e r ih =>
    by_cases h : e.1 = name
    · rw [get?, if_pos h, ← h]
      exact List.lookup_cons_self
    · rw [get?, if_neg h, ← ih, List.lookup_cons, beq_eq_false_iff_ne.mpr (Ne.symm h)]

theorem put_of_mem (name : String) (a : α) {es : List (String × α)} (h : (names es).Nodup)
    (hm : name ∈ names es) :
    put name a es = es.map fun e => (e.1, if e.1 = name then a else e.2) := by
  induction es with
  | nil => simp [names] at hm
  | cons e r ih =>
    obtain ⟨hn, hr⟩ := List.nodup_cons.mp h
    by_cases he : e.1 = name
    · subst he
      have hrest : r.map (fun f => (f.1, if f.1 = e.1 then a else f.2)) = r := by
        apply (List.map_congr_left _).trans (List.map_id' r)
        intro f hf
        have : f.1 ≠ e.1 := fun x => hn (List.mem_map.mpr ⟨f, hf, x⟩)
        simp [this]
      simp [put, hrest]
    · have hm' : name ∈ names r := by
        rcases List.mem_cons.mp hm with hx | hx
        · exact absurd hx.symm he
        · exact hx
      simp [put, he, ih hr hm']

theorem put_of_not_mem (name : String) (a : α) {es : List (String × α)} (h : name ∉ names es) :
    put name a es = es ++ [(name, a)] := by
  induction es with
  | nil => rfl
  | cons e r ih =>
    obtain ⟨hne, hr⟩ := not_or.mp (mt List.mem_cons.mpr h)
    rw [put, if_neg (Ne.symm hne), ih hr, List.cons_append]

theorem put_put (name : String) (a b : α) (es : List (String × α)) :
    put name b (put name a es) = put name b es := by
  induction es with
  | nil => simp [put]
  | cons e r ih =>
    by_cases he : e.1 = name
    · simp [put, he]
    · simp [put, he, ih]

theorem filter_put (name : String) (a : α) (keep : String → Bool) (h : keep name = false)
    (es : List (String × α)) :
    (put name a es).filter (fun e => keep e.1) = es.filter fun e => keep e.1 := by
  induction es with
  | nil => simp [put, h]
  | cons e r ih =>
    by_cases he : e.1 = name
    · simp [put, he, h]
    · simp [put, he, List.filter_cons, ih]

end Entries

namespace Table

theorem mem_entries (t : Table α) (name : String) (a : α) :
    (name, a) ∈ t.entries ↔ t.get? name = some a :=
  Entries.mem_iff_get? t.nodup name a

theorem mem_values (t : Table α) (a : α) : a ∈ t.values ↔ ∃ name, t.get? name = some a := by
  constructor
  · intro h
    obtain ⟨e, he, rfl⟩ := List.mem_map.mp h
    exact ⟨e.1, (t.mem_entries e.1 e.2).mp he⟩
  · rintro ⟨name, h⟩
    exact List.mem_map.mpr ⟨(name, a), (t.mem_entries name a).mpr h, rfl⟩

theorem map_map (t : Table α) (f : String → α → β) (g : String → β → γ) :
    (t.map f).map g = t.map fun n a => g n (f n a) :=
  ext_entries (by simp [map, Function.comp_def])

theorem map_congr (t : Table α) {f g : String → α → β}
    (h : ∀ n a, t.get? n = some a → f n a = g n a) : t.map f = t.map g := by
  apply ext_entries
  apply List.map_congr_left
  intro e he
  rw [h e.1 e.2 ((t.mem_entries e.1 e.2).mp he)]

theorem map_eq_self (t : Table α) {f : String → α → α}
    (h : ∀ n a, t.get? n = some a → f n a = a) : t.map f = t := by
  apply (map_congr t h).trans
  apply ext_entries
  simp [map]

theorem entries_erase (t : Table α) (name : String) :
    (t.erase name).entries = t.entries.filter fun e => e.1 != name := rfl

theorem names_erase (t : Table α) (name : String) :
    (t.erase name).names = t.names.filter fun n => n != name := by
  simp [erase, filter, names, Entries.names, List.filter_map, Function.comp_def]

theorem get?_erase (t : Table α) (name other : String) :
    (t.erase name).get? other = if other = name then none else t.get? other := by
  apply Option.ext
  intro a
  rw [← mem_entries, erase, filter]
  by_cases h : other = name <;> simp [h, mem_entries]

theorem entries_insert_of_not_mem {t : Table α} {name : String} (h : name ∉ t.names) (a : α) :
    (t.insert name a).entries = t.entries ++ [(name, a)] :=
  Entries.put_of_not_mem name a h

/-- Binding to a free name what another name was bound to keeps all other entries. -/
theorem rename_perm {t : Table α} {old new : String} {a : α} (h : t.get? old = some a)
    (hnew : new ∉ (t.erase old).names) :
    ((t.erase old).insert new a).entries.Perm
      (t.entries.map fun e => (if e.1 = old then new else e.1, e.2)) := by
  obtain ⟨before, after, hsplit⟩ := List.append_of_mem ((t.mem_entries old a).mpr h)
  have hfirst : t.entries.Perm ((old, a) :: (before ++ after)) := by
    rw [hsplit]
    exact List.perm_middle
  have hnodup := (hfirst.map Prod.fst).nodup_iff.mp t.nodup
  have hothers : ∀ e ∈ before ++ after, e.1 ≠ old := fun e he heq =>
    (List.nodup_cons.mp hnodup).1 (List.mem_map.mpr ⟨e, he, heq⟩)
  have herase : (t.erase old).entries = before ++ after := by
    rw [entries_erase, hsplit, List.filter_append, List.filter_cons_of_neg (by simp),
      ← List.filter_append, List.filter_eq_self]
    exact fun e he => by simpa using hothers e he
  have hkept : ∀ es ⊆ before ++ after,
      es.map (fun e => (if e.1 = old then new else e.1, e.2)) = es := by
    intro es hes
    apply (List.map_congr_left _).trans (List.map_id' es)
    exact fun e he => by rw [if_neg (hothers e (hes he))]
  rw [entries_insert_of_not_mem hnew, herase, hsplit, List.map_append, List.map_cons, if_pos rfl,
    hkept before (List.subset_append_left before after),
      hkept after (List.subset_append_right before after)]
  exact (List.perm_append_singleton _ _).trans List.perm_middle.symm

@[simp] theorem names_update (t : Table α) (name : String) (f : α → α) :
    (t.update name f).names = t.names := names_map t _

theorem update_congr (t : Table α) (name : String) {f g : α → α}
    (h : ∀ a, t.get? name = some a → f a = g a) : t.update name f = t.update name g := by
  apply map_congr
  intro n a hn
  by_cases hx : n = name
  · subst hx
    simp [h a hn]
  · simp [hx]

theorem update_comm (t : Table α) {a b : String} {f g : α → α}
    (h : a = b → ∀ x, g (f x) = f (g x)) :
    (t.update a f).update b g = (t.update b g).update a f := by
  rw [update, update, update, update, map_map, map_map]
  apply map_congr
  intro n x _
  by_cases ha : n = a
  · by_cases hb : n = b
    · simp only [if_pos ha, if_pos hb, h (ha.symm.trans hb)]
    · simp only [if_pos ha, if_neg hb]
  · simp only [if_neg ha]

theorem map_update (t : Table α) (name : String) (f : α → α) (g : String → α → β)
    (h : ∀ a, t.get? name = some a → g name (f a) = g name a) :
    (t.update name f).map g = t.map g := by
  rw [update, map_map]
  apply map_congr
  intro n a hn
  by_cases hx : n = name
  · subst hx
    simp [h a hn]
  · simp [hx]

theorem insert_of_get? {t : Table α} {name : String} {a : α} (b : α) (h : t.get? name = some a) :
    t.insert name b = t.update name fun _ => b := by
  have hm : name ∈ Entries.names t.entries := (Entries.isSome_get? name t.entries).mp (by
    rw [show Entries.get? name t.entries = some a from h]; rfl)
  apply ext_entries
  exact Entries.put_of_mem name b t.nodup hm

@[simp] theorem insert_insert (t : Table α) (name : String) (a b : α) :
    (t.insert name a).insert name b = t.insert name b :=
  ext_entries (Entries.put_put name a b t.entries)

theorem update_eq_insert {t : Table α} {name : String} {a : α} (f : α → α)
    (h : t.get? name = some a) : t.update name f = t.insert name (f a) := by
  rw [insert_of_get? (f a) h]
  exact update_congr t name fun b hb => by rw [Option.some.inj (h.symm.trans hb)]

theorem insert_self {t : Table α} {name : String} {a : α} (h : t.get? name = some a) :
    t.insert name a = t := by
  have hid : t.insert name a = t.update name id := (update_eq_insert id h).symm
  rw [hid]
  apply map_eq_self
  intro n b _
  by_cases hx : n = name <;> simp [hx]

theorem filter_insert (t : Table α) (name : String) (a : α) (keep : String → Bool)
    (h : keep name = false) :
    (t.insert name a).filter (fun n _ => keep n) = t.filter fun n _ => keep n :=
  ext_entries (Entries.filter_put name a keep h t.entries)

theorem filter_filter (t : Table α) (keep : String → Bool) :
    (t.filter fun n _ => keep n).filter (fun n _ => keep n) = t.filter fun n _ => keep n :=
  ext_entries (by simp [filter])

theorem entries_foldl_insert {es : List (String × α)} {t : Table α}
    (h : (t.names ++ Entries.names es).Nodup) :
    (es.foldl (fun t e => t.insert e.1 e.2) t).entries = t.entries ++ es := by
  induction es generalizing t with
  | nil => exact (List.append_nil _).symm
  | cons e r ih =>
    have hnew : e.1 ∉ Entries.names t.entries := fun hmem =>
      (List.nodup_append.mp h).2.2 _ hmem _ List.mem_cons_self rfl
    have hinsert : (t.insert e.1 e.2).entries = t.entries ++ [e] :=
      entries_insert_of_not_mem hnew e.2
    rw [List.foldl_cons, ih, hinsert, List.append_assoc]
    · rfl
    · rw [names, hinsert]
      simpa [Entries.names, names] using h

theorem ofList_entries (t : Table α) : ofList t.entries = t := by
  apply ext_entries
  exact entries_foldl_insert (t := empty) t.nodup

theorem get?_ofList {es : List (String × α)} (h : (Entries.names es).Nodup) (name : String) :
    (ofList es).get? name = Entries.get? name es :=
  congrArg (get? · name) (ofList_entries ⟨es, h⟩)

theorem get?_foldl_insert (es : List (String × α)) (t : Table α) (name : String) :
    (es.foldl (fun t e => t.insert e.1 e.2) t).get? name =
      ((ofList es).get? name).or (t.get? name) := by
  induction es generalizing t with
  | nil => rfl
  | cons e r ih =>
    have hfirst :
        (t.insert e.1 e.2).get? name = ((empty.insert e.1 e.2).get? name).or (t.get? name) := by
      rw [get?_insert, get?_insert]
      split <;> rfl
    rw [ofList, List.foldl_cons, List.foldl_cons, ih, ih, hfirst, Option.or_assoc]

theorem get?_ofList_append (es fs : List (String × α)) (name : String) :
    (ofList (es ++ fs)).get? name = ((ofList fs).get? name).or ((ofList es).get? name) := by
  rw [ofList, List.foldl_append, get?_foldl_insert]
  rfl

end Table

end PoseRig
