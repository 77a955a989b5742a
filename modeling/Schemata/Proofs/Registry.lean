import Mathlib.Data.List.Forall2
import Mathlib.Data.List.Nodup
import Mathlib.Data.List.Perm.Basic
import Mathlib.Data.Set.Basic
import Mathlib.Data.String.Basic
import Mathlib.Order.Bounds.Basic
import Schemata.Registry

/-!
# Laws of registries

A registry is *filed* by a naming of its elements if every element stands under its own name and the names ascend
(`Registry.Filed`). Filing keeps this up, and a filed registry is known by what it has under each name:

* `Registry.get?_put` and `Registry.get?_insertAll`: what is filed later wins;
* `Registry.registerAll_eq_ok_iff` and `Registry.exists_of_registerAll_eq_error`: a strict union exists exactly if
  the two registries agree wherever both have something;
* `Registry.Filed.registerAll_eq_error_iff`: otherwise the refusal names the least clash;
* `Registry.rel_of_get?`: registries are related (`Registry.Rel`) if what they have under every name is.
-/

namespace Schemata.Registry

variable {α : Type}

/-- Every element stands under its own name, and the names ascend. -/
structure Filed (nameOf : α → String) (r : Registry α) : Prop where
  /-- The key of an element is its name. -/
  name_eq : ∀ entry ∈ r.entries, nameOf entry.2 = entry.1
  /-- The keys ascend. -/
  ascending : r.keys.Pairwise (· < ·)

/-! ### Reading -/

@[simp]
theorem get?_empty (name : String) : (∅ : Registry α).get? name = none :=
  rfl

@[simp]
theorem elements_empty : (∅ : Registry α).elements = [] :=
  rfl

theorem mem_elements {r : Registry α} {x : α} : x ∈ r.elements ↔ ∃ name, (name, x) ∈ r.entries := by
  simp [elements]

theorem mem_elements_of_get? {r : Registry α} {name : String} {x : α} (h : r.get? name = some x) :
    x ∈ r.elements := by
  obtain ⟨front, back, heq, -⟩ := List.lookup_eq_some_iff.mp h
  exact mem_elements.mpr ⟨name, by simp [heq]⟩

theorem isEmpty_iff {r : Registry α} : r.isEmpty ↔ r.elements = [] := by
  simp [isEmpty, elements]

theorem isEmpty_eq_false_iff {r : Registry α} : r.isEmpty = false ↔ ∃ x, x ∈ r.elements := by
  rw [← Bool.not_eq_true, isEmpty_iff, List.eq_nil_iff_forall_not_mem]
  push Not
  rfl

theorem get?_of_isEmpty {r : Registry α} (h : r.isEmpty = true) (name : String) : r.get? name = none := by
  rw [Option.eq_none_iff_forall_ne_some]
  intro x hx
  exact absurd (isEmpty_iff.mp h ▸ mem_elements_of_get? hx) List.not_mem_nil

theorem filed_empty (nameOf : α → String) : Filed nameOf (∅ : Registry α) :=
  ⟨fun _ h => absurd h List.not_mem_nil, List.Pairwise.nil⟩

namespace Filed

variable {nameOf : α → String} {r : Registry α}

/-- The keys are the names of the elements. -/
theorem keys_eq (h : r.Filed nameOf) : r.keys = r.elements.map nameOf := by
  rw [elements, keys, List.map_map]
  exact List.map_congr_left fun entry hentry => (h.name_eq entry hentry).symm

/-- The names of the elements ascend. -/
theorem names_ascending (h : r.Filed nameOf) : (r.elements.map nameOf).Pairwise (· < ·) :=
  h.keys_eq ▸ h.ascending

/-- No element stands in two places. -/
theorem nodup_elements (h : r.Filed nameOf) : r.elements.Nodup :=
  List.Nodup.of_map nameOf (h.names_ascending.imp fun hlt => ne_of_lt hlt)

/-- Two elements with one name are one. -/
theorem eq_of_name_eq (h : r.Filed nameOf) {x y : α} (hx : x ∈ r.elements) (hy : y ∈ r.elements)
    (hxy : nameOf x = nameOf y) : x = y :=
  List.inj_on_of_nodup_map (h.names_ascending.imp fun hlt => ne_of_lt hlt) hx hy hxy

theorem mem_entries_iff (h : r.Filed nameOf) {name : String} {x : α} :
    (name, x) ∈ r.entries ↔ x ∈ r.elements ∧ nameOf x = name := by
  constructor
  · intro hmem
    exact ⟨mem_elements.mpr ⟨name, hmem⟩, h.name_eq _ hmem⟩
  · rintro ⟨hx, rfl⟩
    obtain ⟨key, hkey⟩ := mem_elements.mp hx
    have hname : nameOf x = key := h.name_eq _ hkey
    rwa [hname]

/-- A filed registry has under a name exactly its element of that name. -/
theorem get?_eq_some_iff (h : r.Filed nameOf) {name : String} {x : α} :
    r.get? name = some x ↔ x ∈ r.elements ∧ nameOf x = name := by
  rw [← h.mem_entries_iff, get?, List.lookup_eq_some_iff]
  constructor
  · rintro ⟨front, back, heq, -⟩
    exact heq ▸ by simp
  · intro hmem
    obtain ⟨front, back, heq⟩ := List.append_of_mem hmem
    refine ⟨front, back, heq, fun entry hentry => ?_⟩
    have hsorted := h.ascending
    rw [keys, heq, List.map_append, List.pairwise_append] at hsorted
    have hlt : entry.1 < name := hsorted.2.2 _ (List.mem_map_of_mem hentry) _ (by simp)
    simpa using (ne_of_lt hlt).symm

theorem get?_of_mem (h : r.Filed nameOf) {x : α} (hx : x ∈ r.elements) : r.get? (nameOf x) = some x :=
  h.get?_eq_some_iff.mpr ⟨hx, rfl⟩

/-- Only the names of the elements matter. -/
theorem congr {nameOf' : α → String} (h : r.Filed nameOf) (heq : ∀ x ∈ r.elements, nameOf' x = nameOf x) :
    r.Filed nameOf' :=
  ⟨fun entry hentry =>
    (heq _ (mem_elements.mpr ⟨entry.1, hentry⟩)).trans (h.name_eq entry hentry), h.ascending⟩

/-- A filed registry is known from its elements. -/
theorem eq_of_mem_iff {r' : Registry α} (hr : r.Filed nameOf) (hr' : r'.Filed nameOf)
    (hmem : ∀ x, x ∈ r.elements ↔ x ∈ r'.elements) : r = r' := by
  have hsorted : ∀ {r : Registry α}, r.Filed nameOf → r.entries.Pairwise (fun a b => a.1 < b.1) :=
    fun h => List.pairwise_map.mp h.ascending
  have hnodup : ∀ {r : Registry α}, r.Filed nameOf → r.entries.Nodup :=
    fun h => (hsorted h).imp fun {a b} hlt (heq : a = b) => lt_irrefl b.1 (heq ▸ hlt)
  have hperm : r.entries.Perm r'.entries := by
    refine (List.perm_ext_iff_of_nodup (hnodup hr) (hnodup hr')).mpr fun entry => ?_
    rw [hr.mem_entries_iff, hr'.mem_entries_iff, hmem]
  have heq : r.entries = r'.entries :=
    hperm.eq_of_pairwise (fun a b _ _ hab hba => absurd hab (lt_asymm hba)) (hsorted hr) (hsorted hr')
  exact congrArg Registry.mk heq
end Filed

/-! ### Filing one element -/

private theorem lookup_cons_eq_ite (key name : String) (x : α) (rest : List (String × α)) :
    ((name, x) :: rest).lookup key = if key = name then some x else rest.lookup key := by
  rw [List.lookup_cons]
  by_cases h : key = name
  · simp [h]
  · rw [if_neg h, beq_eq_false_iff_ne.mpr h]

/-- What is filed under a name is found there, and nothing else changes. -/
@[simp]
theorem get?_put (r : Registry α) (name key : String) (x : α) :
    (r.put name x).get? key = if key = name then some x else r.get? key := by
  obtain ⟨entries⟩ := r
  simp only [put, get?]
  induction entries with
  | nil => simp [putEntry, lookup_cons_eq_ite]
  | cons entry rest ih =>
    obtain ⟨other, y⟩ := entry
    rw [putEntry]
    by_cases hlt : name < other
    · rw [if_pos hlt, lookup_cons_eq_ite]
    by_cases heq : name = other
    · subst heq
      rw [if_neg hlt, if_pos rfl, lookup_cons_eq_ite, lookup_cons_eq_ite]
      split_ifs <;> rfl
    · rw [if_neg hlt, if_neg heq, lookup_cons_eq_ite, lookup_cons_eq_ite, ih]
      by_cases hkey : key = name
      · simp [hkey, heq]
      · simp [hkey]

theorem mem_putEntry {name : String} {x : α} {entry : String × α} {entries : List (String × α)}
    (h : entry ∈ putEntry name x entries) : entry = (name, x) ∨ entry ∈ entries := by
  induction entries with
  | nil => simpa [putEntry] using h
  | cons other rest ih =>
    obtain ⟨key, y⟩ := other
    rw [putEntry] at h
    split_ifs at h with hlt heq
    · exact List.mem_cons.mp h
    · rcases List.mem_cons.mp h with h | h
      · exact Or.inl h
      · exact Or.inr (List.mem_cons_of_mem _ h)
    · rcases List.mem_cons.mp h with rfl | h
      · exact Or.inr List.mem_cons_self
      · exact (ih h).imp_right (List.mem_cons_of_mem _)

theorem mem_elements_put {r : Registry α} {name : String} {x y : α} (h : y ∈ (r.put name x).elements) :
    y = x ∨ y ∈ r.elements := by
  obtain ⟨key, hkey⟩ := mem_elements.mp h
  rcases mem_putEntry hkey with heq | hmem
  · exact Or.inl (congrArg Prod.snd heq)
  · exact Or.inr (mem_elements.mpr ⟨key, hmem⟩)

private theorem ascending_putEntry {name : String} {x : α} {entries : List (String × α)}
    (h : (entries.map Prod.fst).Pairwise (· < ·)) :
    ((putEntry name x entries).map Prod.fst).Pairwise (· < ·) := by
  induction entries with
  | nil => simp [putEntry]
  | cons entry rest ih =>
    obtain ⟨key, y⟩ := entry
    rw [List.map_cons, List.pairwise_cons] at h
    rw [putEntry]
    split_ifs with hlt heq
    · rw [List.map_cons, List.map_cons, List.pairwise_cons, List.pairwise_cons]
      refine ⟨fun k hk => ?_, h⟩
      rcases List.mem_cons.mp hk with rfl | hk
      · exact hlt
      · exact hlt.trans (h.1 k hk)
    · subst heq
      exact List.pairwise_cons.mpr h
    · rw [List.map_cons, List.pairwise_cons]
      refine ⟨fun k hk => ?_, ih h.2⟩
      obtain ⟨entry, hentry, rfl⟩ := List.mem_map.mp hk
      rcases mem_putEntry hentry with rfl | hmem
      · exact lt_of_le_of_ne (not_lt.mp hlt) (Ne.symm heq)
      · exact h.1 _ (List.mem_map_of_mem hmem)

/-- Filing an element under its own name keeps a registry filed. -/
theorem ascending_put {r : Registry α} (h : r.keys.Pairwise (· < ·)) (name : String) (x : α) :
    (r.put name x).keys.Pairwise (· < ·) :=
  ascending_putEntry h

theorem Filed.put {nameOf : α → String} {r : Registry α} (h : r.Filed nameOf) {name : String} {x : α}
    (hx : nameOf x = name) : (r.put name x).Filed nameOf := by
  refine ⟨fun entry hentry => ?_, ascending_putEntry h.ascending⟩
  rcases mem_putEntry hentry with rfl | hmem
  · exact hx
  · exact h.name_eq entry hmem

/-! ### Removing an element -/

theorem mem_elements_erase {r : Registry α} {name : String} {x : α} (h : x ∈ (r.erase name).elements) :
    x ∈ r.elements := by
  obtain ⟨key, hkey⟩ := mem_elements.mp h
  exact mem_elements.mpr ⟨key, List.mem_of_mem_filter hkey⟩

theorem Filed.erase {nameOf : α → String} {r : Registry α} (h : r.Filed nameOf) (name : String) :
    (r.erase name).Filed nameOf :=
  ⟨fun entry hentry => h.name_eq entry (List.mem_of_mem_filter hentry),
    h.ascending.sublist ((List.filter_sublist).map Prod.fst)⟩

/-! ### Filing another registry -/

theorem filed_foldl_insert {nameOf : α → String} (xs : List α) :
    ∀ {r : Registry α}, r.Filed nameOf → (xs.foldl (insert nameOf) r).Filed nameOf := by
  induction xs with
  | nil => exact fun h => h
  | cons x xs ih => exact fun h => ih (h.put rfl)

theorem Filed.insertAll {nameOf : α → String} {r : Registry α} (h : r.Filed nameOf) (other : Registry α) :
    (r.insertAll nameOf other).Filed nameOf :=
  filed_foldl_insert other.elements h

theorem filed_ofList (nameOf : α → String) (xs : List α) : (ofList nameOf xs).Filed nameOf :=
  filed_foldl_insert xs (filed_empty nameOf)

/-- Of elements filed one after the other under pairwise different names, each is found, and what was there stays
under the other names. -/
theorem get?_foldl_insert {nameOf : α → String} (xs : List α) (name : String)
    (hxs : (xs.map nameOf).Nodup) :
    ∀ r : Registry α, (xs.foldl (insert nameOf) r).get? name =
      (xs.find? fun x => nameOf x = name).or (r.get? name) := by
  induction xs with
  | nil => simp
  | cons x xs ih =>
    intro r
    rw [List.map_cons, List.nodup_cons] at hxs
    rw [List.foldl_cons, ih hxs.2, List.find?_cons, insert, get?_put]
    by_cases hx : nameOf x = name
    · have hnone : xs.find? (fun y => nameOf y = name) = none := by
        rw [List.find?_eq_none]
        intro y hy hyn
        rw [decide_eq_true_eq] at hyn
        exact hxs.1 (hx.trans hyn.symm ▸ List.mem_map_of_mem hy)
      simp [hx, hnone]
    · simp [hx, Ne.symm hx]

/-- Among elements of pairwise different names, a name finds its element. -/
theorem find?_name_eq {nameOf : α → String} {xs : List α} (hxs : (xs.map nameOf).Nodup) {x : α} (hx : x ∈ xs) :
    (xs.find? fun y => nameOf y = nameOf x) = some x := by
  cases hfound : xs.find? fun y => nameOf y = nameOf x with
  | none => exact absurd (decide_eq_true rfl) (List.find?_eq_none.mp hfound x hx)
  | some y =>
    have hname : nameOf y = nameOf x := by simpa using List.find?_some hfound
    rw [List.inj_on_of_nodup_map hxs (List.mem_of_find?_eq_some hfound) hx hname]

/-- Elements of pairwise different names are all kept. -/
theorem mem_elements_ofList {nameOf : α → String} {xs : List α} (hxs : (xs.map nameOf).Nodup) {x : α} :
    x ∈ (ofList nameOf xs).elements ↔ x ∈ xs := by
  have hget : (ofList nameOf xs).get? (nameOf x) = xs.find? fun y => nameOf y = nameOf x := by
    rw [ofList, get?_foldl_insert xs _ hxs, get?_empty, Option.or_none]
  constructor
  · intro hx
    rw [(filed_ofList nameOf xs).get?_of_mem hx] at hget
    exact List.mem_of_find?_eq_some hget.symm
  · exact fun hx => mem_elements_of_get? (hget.trans (find?_name_eq hxs hx))

/-- What is filed later wins. -/
theorem get?_insertAll {nameOf : α → String} (r : Registry α) {other : Registry α} (h : other.Filed nameOf)
    (name : String) : (r.insertAll nameOf other).get? name = (other.get? name).or (r.get? name) := by
  have hnodup : (other.elements.map nameOf).Nodup := h.names_ascending.imp fun hlt => ne_of_lt hlt
  rw [insertAll, get?_foldl_insert _ _ hnodup]
  congr 1
  cases hget : other.get? name with
  | none =>
    rw [List.find?_eq_none]
    intro x hx hxn
    rw [decide_eq_true_eq] at hxn
    rw [h.get?_eq_some_iff.mpr ⟨hx, hxn⟩] at hget
    exact absurd hget (by simp)
  | some x =>
    obtain ⟨hx, rfl⟩ := h.get?_eq_some_iff.mp hget
    cases hfind : other.elements.find? fun y => decide (nameOf y = nameOf x) with
    | none => simpa using List.find?_eq_none.mp hfind x hx
    | some y =>
      have hname : nameOf y = nameOf x := by simpa using List.find?_some hfind
      rw [h.eq_of_name_eq (List.mem_of_find?_eq_some hfind) hx hname]

theorem mem_elements_insertAll {nameOf : α → String} {r other : Registry α} (hr : r.Filed nameOf)
    (h : other.Filed nameOf) {x : α} :
    x ∈ (r.insertAll nameOf other).elements ↔
      x ∈ other.elements ∨ (x ∈ r.elements ∧ other.get? (nameOf x) = none) := by
  have hiff : (r.insertAll nameOf other).get? (nameOf x) = some x ↔
      x ∈ (r.insertAll nameOf other).elements ∧ nameOf x = nameOf x := (hr.insertAll other).get?_eq_some_iff
  rw [get?_insertAll r h, Option.or_eq_some_iff, h.get?_eq_some_iff, hr.get?_eq_some_iff] at hiff
  simp only [and_true] at hiff
  rw [← hiff]
  exact or_congr_right and_comm

/-- A union has elements if and only if one of the two registries has. -/
theorem Filed.isEmpty_insertAll_eq_false_iff {nameOf : α → String} {r other : Registry α} (hr : r.Filed nameOf)
    (hother : other.Filed nameOf) :
    (r.insertAll nameOf other).isEmpty = false ↔ other.isEmpty = false ∨ r.isEmpty = false := by
  simp only [isEmpty_eq_false_iff, mem_elements_insertAll hr hother]
  constructor
  · rintro ⟨x, hx | ⟨hx, -⟩⟩
    · exact .inl ⟨x, hx⟩
    · exact .inr ⟨x, hx⟩
  · rintro (⟨x, hx⟩ | ⟨x, hx⟩)
    · exact ⟨x, .inl hx⟩
    · cases hget : other.get? (nameOf x) with
      | none => exact ⟨x, .inr ⟨hx, hget⟩⟩
      | some y => exact ⟨y, .inl (mem_elements_of_get? hget)⟩

/-! ### Related registries -/

section Related

variable {β : Type}

/-- Registries have the same names, and related elements under them. -/
def Rel (r : α → β → Prop) (x : Registry α) (y : Registry β) : Prop :=
  List.Forall₂ (fun a b => a.1 = b.1 ∧ r a.2 b.2) x.entries y.entries

namespace Rel

variable {r : α → β → Prop} {x : Registry α} {y : Registry β} (h : x.Rel r y)

include h

theorem keys_eq : x.keys = y.keys := by
  refine List.forall₂_eq_eq_eq ▸ ?_
  rw [keys, keys, List.forall₂_map_left_iff, List.forall₂_map_right_iff]
  exact h.imp fun _ _ hab => hab.1

theorem elements : List.Forall₂ r x.elements y.elements := by
  rw [Registry.elements, Registry.elements, List.forall₂_map_left_iff, List.forall₂_map_right_iff]
  exact h.imp fun _ _ hab => hab.2

theorem isEmpty_eq : x.isEmpty = y.isEmpty := by
  rw [isEmpty, isEmpty, Bool.eq_iff_iff, List.isEmpty_iff_length_eq_zero, List.isEmpty_iff_length_eq_zero, h.length_eq]

theorem get? (name : String) : Option.Rel r (x.get? name) (y.get? name) := by
  obtain ⟨xs⟩ := x
  obtain ⟨ys⟩ := y
  change List.Forall₂ _ xs ys at h
  simp only [Registry.get?]
  induction h with
  | nil => exact .none
  | @cons a b _ _ hab _ ih =>
    obtain ⟨key, u⟩ := a
    obtain ⟨key', v⟩ := b
    obtain ⟨rfl, huv⟩ := hab
    rw [lookup_cons_eq_ite, lookup_cons_eq_ite]
    split_ifs
    · exact .some huv
    · exact ih

theorem mono {r' : α → β → Prop} (hr : ∀ a b, r a b → r' a b) : x.Rel r' y :=
  List.Forall₂.imp (fun _ _ hab => ⟨hab.1, hr _ _ hab.2⟩) h

theorem symm : y.Rel (fun b a => r a b) x :=
  (List.Forall₂.flip h).imp fun _ _ hab => ⟨hab.1.symm, hab.2⟩

theorem put (name : String) {a : α} {b : β} (hab : r a b) : (x.put name a).Rel r (y.put name b) := by
  obtain ⟨xs⟩ := x
  obtain ⟨ys⟩ := y
  change List.Forall₂ _ xs ys at h
  change List.Forall₂ _ (putEntry name a xs) (putEntry name b ys)
  induction h with
  | nil => exact .cons ⟨rfl, hab⟩ .nil
  | @cons c d _ _ hcd hrest ih =>
    obtain ⟨key, u⟩ := c
    obtain ⟨key', v⟩ := d
    obtain ⟨rfl, huv⟩ := hcd
    rw [putEntry, putEntry]
    split_ifs
    · exact .cons ⟨rfl, hab⟩ (.cons ⟨rfl, huv⟩ hrest)
    · exact .cons ⟨rfl, hab⟩ hrest
    · exact .cons ⟨rfl, huv⟩ ih

theorem erase (name : String) : (x.erase name).Rel r (y.erase name) := by
  obtain ⟨xs⟩ := x
  obtain ⟨ys⟩ := y
  change List.Forall₂ _ xs ys at h
  change List.Forall₂ _ (xs.filter _) (ys.filter _)
  induction h with
  | nil => exact .nil
  | @cons c d _ _ hcd _ ih =>
    obtain ⟨key, u⟩ := c
    obtain ⟨key', v⟩ := d
    obtain ⟨rfl, huv⟩ := hcd
    rw [List.filter_cons, List.filter_cons]
    split_ifs
    · exact .cons ⟨rfl, huv⟩ ih
    · exact ih

end Rel

/-- Registries are related if what they have under every name is. -/
theorem rel_of_get? {r : α → β → Prop} {x : Registry α} {y : Registry β} (hx : x.keys.Pairwise (· < ·))
    (hy : y.keys.Pairwise (· < ·)) (h : ∀ name, Option.Rel r (x.get? name) (y.get? name)) : x.Rel r y := by
  obtain ⟨xs⟩ := x
  obtain ⟨ys⟩ := y
  change List.Forall₂ _ xs ys
  simp only [Registry.keys, Registry.get?] at hx hy h
  have hfree : ∀ {γ : Type} {key : String} {es : List (String × γ)}, (∀ k ∈ es.map Prod.fst, key < k) →
      es.lookup key = none := by
    intro γ key es hlt
    rw [List.lookup_eq_none_iff]
    intro e he
    simpa using ne_of_lt (hlt e.1 (List.mem_map_of_mem he))
  induction xs generalizing ys with
  | nil =>
    cases ys with
    | nil => exact .nil
    | cons b ys =>
      have hb := h b.1
      rw [List.lookup_cons_self] at hb
      exact nomatch hb
  | cons a xs ih =>
    cases ys with
    | nil =>
      have ha := h a.1
      rw [List.lookup_cons_self] at ha
      exact nomatch ha
    | cons b ys =>
      obtain ⟨key, u⟩ := a
      obtain ⟨key', v⟩ := b
      rw [List.map_cons, List.pairwise_cons] at hx hy
      -- The least names are the same: neither registry has a name before its least one.
      have hkey : key = key' := by
        rcases lt_trichotomy key key' with hlt | heq | hgt
        · have hnone : ((key', v) :: ys).lookup key = none := by
            refine hfree fun k hk => ?_
            rcases List.mem_cons.mp hk with rfl | hk
            · exact hlt
            · exact hlt.trans (hy.1 k hk)
          have hboth := h key
          rw [List.lookup_cons_self, hnone] at hboth
          exact nomatch hboth
        · exact heq
        · have hnone : ((key, u) :: xs).lookup key' = none := by
            refine hfree fun k hk => ?_
            rcases List.mem_cons.mp hk with rfl | hk
            · exact hgt
            · exact hgt.trans (hx.1 k hk)
          have hboth := h key'
          rw [List.lookup_cons_self, hnone] at hboth
          exact nomatch hboth
      subst hkey
      have hhead := h key
      rw [List.lookup_cons_self, List.lookup_cons_self] at hhead
      cases hhead with
      | some huv =>
        refine .cons ⟨rfl, huv⟩ (ih hx.2 ys hy.2 fun name => ?_)
        by_cases hname : name = key
        · rw [hname, hfree hx.1, hfree hy.1]
          exact .none
        · have hboth := h name
          rwa [lookup_cons_eq_ite, lookup_cons_eq_ite, if_neg hname, if_neg hname] at hboth

/-- Registries are related if their elements are, and related elements have one name. -/
theorem Filed.rel_of_forall_mem {r : α → β → Prop} {x : Registry α} {y : Registry β} {nameOf : α → String}
    {nameOf' : β → String} (hx : x.Filed nameOf) (hy : y.Filed nameOf') (hname : ∀ a b, r a b → nameOf a = nameOf' b)
    (hleft : ∀ a ∈ x.elements, ∃ b ∈ y.elements, r a b) (hright : ∀ b ∈ y.elements, ∃ a ∈ x.elements, r a b) :
    x.Rel r y := by
  refine rel_of_get? hx.ascending hy.ascending fun name => ?_
  cases ha : x.get? name with
  | some a =>
    obtain ⟨hmem, rfl⟩ := hx.get?_eq_some_iff.mp ha
    obtain ⟨b, hb, hab⟩ := hleft a hmem
    rw [hname a b hab, hy.get?_of_mem hb]
    exact .some hab
  | none =>
    cases hb : y.get? name with
    | none => exact .none
    | some b =>
      obtain ⟨hmem, rfl⟩ := hy.get?_eq_some_iff.mp hb
      obtain ⟨a, ha', hab⟩ := hright b hmem
      rw [← hname a b hab, hx.get?_of_mem ha'] at ha
      exact nomatch ha

end Related

/-! ### Strict filing -/

variable [DecidableEq α]

theorem conflict?_eq_none_iff {nameOf : α → String} {r : Registry α} {x : α} :
    conflict? nameOf r x = none ↔ ∀ y, r.get? (nameOf x) = some y → y = x := by
  rw [conflict?]
  cases r.get? (nameOf x) with
  | none => simp
  | some y => by_cases h : y = x <;> simp [h]

theorem conflict?_eq_some_iff {nameOf : α → String} {r : Registry α} {x : α} {name : String} :
    conflict? nameOf r x = some name ↔ nameOf x = name ∧ ∃ y, r.get? name = some y ∧ y ≠ x := by
  rw [conflict?]
  cases hget : r.get? (nameOf x) with
  | none =>
    simp only [reduceCtorEq, false_iff, not_and, not_exists]
    rintro rfl y hy
    exact absurd (hget.symm.trans hy) (by simp)
  | some y =>
    by_cases h : y = x
    · simp only [h, if_true, reduceCtorEq, false_iff, not_and, not_exists]
      rintro rfl z hz
      exact fun hne => hne (Option.some.inj (hz.symm.trans hget) ▸ h)
    · simp only [h, if_false, Option.some.injEq]
      constructor
      · rintro rfl
        exact ⟨rfl, y, hget, h⟩
      · exact fun hx => hx.1

/-- An element is filed exactly if its name is free, or already its own. -/
theorem register_eq_ok_iff {nameOf : α → String} {r filed : Registry α} {x : α} :
    r.register nameOf x = .ok filed ↔
      (∀ y, r.get? (nameOf x) = some y → y = x) ∧ filed = r.insert nameOf x := by
  rw [register]
  cases hconflict : conflict? nameOf r x with
  | none =>
    rw [conflict?_eq_none_iff] at hconflict
    simp only [Except.ok.injEq]
    exact ⟨fun h => ⟨hconflict, h.symm⟩, fun h => h.2.symm⟩
  | some name =>
    simp only [reduceCtorEq, false_iff, not_and]
    intro hfree
    rw [conflict?_eq_none_iff.mpr hfree] at hconflict
    exact nomatch hconflict

/-- Another registry is filed exactly if it agrees with the registry wherever both have something. -/
theorem registerAll_eq_ok_iff {nameOf : α → String} {r other filed : Registry α} :
    r.registerAll nameOf other = .ok filed ↔
      (∀ x ∈ other.elements, ∀ y, r.get? (nameOf x) = some y → y = x) ∧ filed = r.insertAll nameOf other := by
  rw [registerAll]
  cases hfind : other.elements.findSome? (conflict? nameOf r) with
  | none =>
    rw [List.findSome?_eq_none_iff] at hfind
    simp only [Except.ok.injEq]
    exact ⟨fun h => ⟨fun x hx => conflict?_eq_none_iff.mp (hfind x hx), h.symm⟩, fun h => h.2.symm⟩
  | some name =>
    simp only [reduceCtorEq, false_iff, not_and]
    intro hall
    obtain ⟨x, hx, hconflict⟩ := List.exists_of_findSome?_eq_some hfind
    rw [conflict?_eq_none_iff.mpr (hall x hx)] at hconflict
    exact absurd hconflict (by simp)

/-- What is filed when all elements of another registry are: everything of both. -/
theorem mem_elements_of_registerAll_eq_ok {nameOf : α → String} {r other filed : Registry α} (hr : r.Filed nameOf)
    (hother : other.Filed nameOf) (h : r.registerAll nameOf other = .ok filed) {x : α} :
    x ∈ filed.elements ↔ x ∈ r.elements ∨ x ∈ other.elements := by
  obtain ⟨hagree, rfl⟩ := registerAll_eq_ok_iff.mp h
  rw [mem_elements_insertAll hr hother]
  constructor
  · rintro (hx | hx)
    · exact .inr hx
    · exact .inl hx.1
  · rintro (hx | hx)
    · cases hget : other.get? (nameOf x) with
      | none => exact .inr ⟨hx, rfl⟩
      | some y =>
        obtain ⟨hy, hname⟩ := hother.get?_eq_some_iff.mp hget
        obtain rfl : x = y := hagree y hy x (hname ▸ hr.get?_of_mem hx)
        exact .inl hy
    · exact .inl hx

/-- A refusal names an element that meets a different one. -/
theorem exists_of_registerAll_eq_error {nameOf : α → String} {r other : Registry α} {e : DuplicateName}
    (h : r.registerAll nameOf other = .error e) :
    ∃ x ∈ other.elements, nameOf x = e.name ∧ ∃ y, r.get? e.name = some y ∧ y ≠ x := by
  rw [registerAll] at h
  cases hfind : other.elements.findSome? (conflict? nameOf r) with
  | none => simp [hfind] at h
  | some name =>
    obtain rfl : e = ⟨name⟩ := by simpa [hfind] using h.symm
    obtain ⟨x, hx, hconflict⟩ := List.exists_of_findSome?_eq_some hfind
    obtain ⟨hname, y, hy, hne⟩ := conflict?_eq_some_iff.mp hconflict
    exact ⟨x, hx, hname, y, hy, hne⟩

/-! ### Clashes -/

section Clashes

variable {nameOf : α → String} {r other filed : Registry α}

/-- The names under which two registries have different elements. -/
def clashes (r other : Registry α) : Set String :=
  { name | ∃ x y, other.get? name = some x ∧ r.get? name = some y ∧ y ≠ x }

/-- An element meets a different one exactly if the registries clash on its name. -/
theorem Filed.conflict?_eq_some_iff_mem_clashes (hother : other.Filed nameOf) {x : α} (hx : x ∈ other.elements)
    {name : String} : conflict? nameOf r x = some name ↔ nameOf x = name ∧ name ∈ r.clashes other := by
  rw [conflict?_eq_some_iff]
  refine and_congr_right ?_
  rintro rfl
  have hget : other.get? (nameOf x) = some x := hother.get?_of_mem hx
  constructor
  · exact fun ⟨y, hy, hne⟩ => ⟨x, y, hget, hy, hne⟩
  · rintro ⟨z, y, hz, hy, hne⟩
    obtain rfl : x = z := Option.some.inj (hget.symm.trans hz)
    exact ⟨y, hy, hne⟩

/-- A strict union exists if and only if the registries do not clash. -/
theorem Filed.registerAll_eq_ok_iff_clashes (hother : other.Filed nameOf) :
    r.registerAll nameOf other = .ok filed ↔ r.clashes other = ∅ ∧ filed = r.insertAll nameOf other := by
  rw [registerAll_eq_ok_iff]
  refine and_congr_left fun _ => ?_
  rw [Set.eq_empty_iff_forall_notMem]
  constructor
  · rintro hall name ⟨x, y, hx, hy, hne⟩
    obtain ⟨hmem, rfl⟩ := hother.get?_eq_some_iff.mp hx
    exact hne (hall x hmem y hy)
  · intro hnone x hx y hy
    by_contra hne
    exact hnone _ ⟨x, y, hother.get?_of_mem hx, hy, hne⟩

/-- A refusal names the least clash: the elements are tried by ascending name. -/
theorem Filed.registerAll_eq_error_iff (hother : other.Filed nameOf) {e : DuplicateName} :
    r.registerAll nameOf other = .error e ↔ IsLeast (r.clashes other) e.name := by
  have hfind : r.registerAll nameOf other = .error e ↔
      other.elements.findSome? (conflict? nameOf r) = some e.name := by
    rw [registerAll]
    cases other.elements.findSome? (conflict? nameOf r) with
    | none => simp
    | some name => cases e; simp
  rw [hfind, List.findSome?_eq_some_iff]
  have hascending : (other.elements.map nameOf).Pairwise (· < ·) := hother.names_ascending
  constructor
  · rintro ⟨before, x, after, heq, hconflict, hbefore⟩
    have hx : x ∈ other.elements := by simp [heq]
    obtain ⟨hname, hclash⟩ := (hother.conflict?_eq_some_iff_mem_clashes hx).mp hconflict
    refine ⟨hclash, fun name hname' => ?_⟩
    obtain ⟨y, -, hget, -⟩ := id hname'
    obtain ⟨hy, rfl⟩ := hother.get?_eq_some_iff.mp hget
    have hyconflict := (hother.conflict?_eq_some_iff_mem_clashes hy).mpr ⟨rfl, hname'⟩
    rw [heq, List.map_append, List.map_cons, List.pairwise_append, List.pairwise_cons] at hascending
    rw [heq] at hy
    -- Nothing before the first clash clashes, and what comes after it has a greater name.
    rcases List.mem_append.mp hy with hy | hy
    · exact absurd (hbefore y hy) (by simp [hyconflict])
    · rcases List.mem_cons.mp hy with rfl | hy
      · exact hname.ge
      · exact hname ▸ (hascending.2.1.1 _ (List.mem_map_of_mem hy)).le
  · rintro ⟨hclash, hleast⟩
    obtain ⟨x, -, hx, -⟩ := id hclash
    obtain ⟨hx, hname⟩ := hother.get?_eq_some_iff.mp hx
    obtain ⟨before, after, heq⟩ := List.append_of_mem hx
    refine ⟨before, x, after, heq, (hother.conflict?_eq_some_iff_mem_clashes hx).mpr ⟨hname, hclash⟩, fun y hy => ?_⟩
    rw [Option.eq_none_iff_forall_ne_some]
    intro name hconflict
    have hy' : y ∈ other.elements := by simp [heq, hy]
    obtain ⟨rfl, hyclash⟩ := (hother.conflict?_eq_some_iff_mem_clashes hy').mp hconflict
    rw [heq, List.map_append, List.map_cons, List.pairwise_append] at hascending
    have hlt : nameOf y < nameOf x := hascending.2.2 _ (List.mem_map_of_mem hy) _ (by simp)
    exact absurd (hleast hyclash) (not_le.mpr (hname ▸ hlt))

end Clashes

/-! ### Gathering -/

section Gathering

variable {β ε : Type} {nameOf : α → String} {E : String → ε → Prop} {S : Set α}

/-- A computation files all elements of a set by name, or fails because two of them have one name. The errors are those
that `E` allows for that name. -/
def Gathers (nameOf : α → String) (E : String → ε → Prop) (S : Set α) : Except ε (Registry α) → Prop
  | .ok found => found.Filed nameOf ∧ ∀ x, x ∈ found.elements ↔ x ∈ S
  | .error e => ∃ x ∈ S, ∃ y ∈ S, x ≠ y ∧ nameOf x = nameOf y ∧ E (nameOf x) e

omit [DecidableEq α] in
/-- Elements can be gathered if and only if their names tell them apart. -/
theorem Gathers.exists_eq_ok_iff {result : Except ε (Registry α)} (h : Gathers nameOf E S result) :
    (∃ found, result = .ok found) ↔ ∀ x ∈ S, ∀ y ∈ S, nameOf x = nameOf y → x = y := by
  cases result with
  | ok found =>
    obtain ⟨hfiled, hmem⟩ := h
    refine ⟨fun _ x hx y hy hname => ?_, fun _ => ⟨found, rfl⟩⟩
    exact hfiled.eq_of_name_eq ((hmem x).mpr hx) ((hmem y).mpr hy) hname
  | error e =>
    obtain ⟨x, hx, y, hy, hne, hname, -⟩ := h
    refine ⟨fun ⟨found, hfound⟩ => (nomatch hfound), fun hall => ?_⟩
    exact absurd (hall x hx y hy hname) hne

omit [DecidableEq α] in
/-- Errors can be put in other words. -/
theorem Gathers.mapError {ε' : Type} {E' : String → ε' → Prop} {f : ε → ε'} {result : Except ε (Registry α)}
    (h : Gathers nameOf E S result) (hf : ∀ name e, E name e → E' name (f e)) :
    Gathers nameOf E' S (result.mapError f) := by
  cases result with
  | ok found => exact h
  | error e =>
    obtain ⟨x, hx, y, hy, hne, hname, he⟩ := h
    exact ⟨x, hx, y, hy, hne, hname, hf _ e he⟩

/-- What several computations gather is put together. -/
theorem gathers_foldlM (T : β → Set α) (walk : β → Except ε (Registry α)) (refuse : β → DuplicateName → ε)
    (xs : List β) (hrefuse : ∀ x ∈ xs, ∀ d, E d.name (refuse x d))
    (hwalk : ∀ x ∈ xs, Gathers nameOf E (T x) (walk x)) :
    ∀ (S : Set α) (found : Registry α), Gathers nameOf E S (.ok found) →
      Gathers nameOf E (S ∪ { k | ∃ x ∈ xs, k ∈ T x })
        (xs.foldlM (fun found x => do
          let nested ← walk x
          (found.registerAll nameOf nested).mapError (refuse x)) found) := by
  induction xs with
  | nil =>
    intro S found hfound
    have hset : S ∪ { k | ∃ x ∈ ([] : List β), k ∈ T x } = S := by simp
    rw [hset]
    exact hfound
  | cons x xs ih =>
    intro S found ⟨hfiled, hmem⟩
    have hx := hwalk x (by simp)
    rw [List.foldlM_cons]
    cases hnested : walk x with
    | error e =>
      rw [hnested] at hx
      obtain ⟨j, hj, k, hk, hrest⟩ := hx
      exact ⟨j, .inr ⟨x, by simp, hj⟩, k, .inr ⟨x, by simp, hk⟩, hrest⟩
    | ok nested =>
      rw [hnested] at hx
      obtain ⟨hfiled', hmem'⟩ := hx
      cases hregister : found.registerAll nameOf nested with
      | error d =>
        -- The element that is refused meets a different one with its name.
        obtain ⟨j, hj, hjname, k, hk, hne⟩ := exists_of_registerAll_eq_error hregister
        obtain ⟨hk, hkname⟩ := hfiled.get?_eq_some_iff.mp hk
        simp only [bind, Except.bind, hregister, Except.mapError]
        exact ⟨k, .inl ((hmem k).mp hk), j, .inr ⟨x, by simp, (hmem' j).mp hj⟩, hne, hkname.trans hjname.symm,
          hkname ▸ hrefuse x (by simp) d⟩
      | ok both =>
        have hboth : Gathers nameOf E (S ∪ T x) (.ok both) := by
          refine ⟨?_, fun k => ?_⟩
          · rw [(registerAll_eq_ok_iff.mp hregister).2]
            exact hfiled.insertAll nested
          · rw [mem_elements_of_registerAll_eq_ok hfiled hfiled' hregister, hmem, hmem']
            rfl
        have hrest := ih (fun y hy => hrefuse y (by simp [hy])) (fun y hy => hwalk y (by simp [hy])) _ both hboth
        have hset : S ∪ T x ∪ { k | ∃ y ∈ xs, k ∈ T y } = S ∪ { k | ∃ y ∈ x :: xs, k ∈ T y } := by
          ext k
          simp [or_assoc]
        rw [hset] at hrest
        simp only [bind, Except.bind, hregister, Except.mapError]
        exact hrest

end Gathering

end Schemata.Registry
