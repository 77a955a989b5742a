import Schemata.Go.Source
import Schemata.Proofs.Collection
import Schemata.Proofs.Graph.Isomorphism

/-!
# Collections from isomorphic graphs

What is collected and written depends on names and fields only. So from graphs whose nodes are paired off, paired objects
are collected under the same names, or neither collection comes through (`Conversion.collect_isomorphic`), and what is
written of paired objects is equal (`Graph.Isomorphism.records_eq`).
-/

namespace Schemata

open Schemata.Graph (Isomorphism)
open Schema (Canopy Rooted)

variable {g g' : Graph} {R : Node → Node → Prop} {x x' y : Node} {i i' k : ItemId} {p p' : PropertyId}

namespace Graph.Isomorphism

variable (hiso : Isomorphism g g' R)

include hiso

/-! ### Paths -/

theorem exists_of_leads (hx : R x x') (hxy : g.Leads x y) : ∃ y', g'.Leads x' y' ∧ R y y' := by
  induction hxy with
  | refl => exact ⟨x', .refl, hx⟩
  | tail _ hlink ih =>
    obtain ⟨y', hy', hpaired⟩ := ih
    obtain ⟨z', hz', hlast⟩ := exists_mem_of_forall₂ (hiso.children hpaired) hlink
    exact ⟨z', hy'.tail hz', hlast⟩

/-- Paired nodes have paired objects below them. -/
theorem exists_mem_objectsBelow (hx : R x x') (hk : k ∈ g.objectsBelow x) :
    ∃ k' ∈ g'.objectsBelow x', R (.item k) (.item k') := by
  obtain ⟨hleads, o, ho⟩ := hk
  obtain ⟨y', hy', hpaired⟩ := hiso.exists_of_leads hx hleads
  obtain ⟨k', rfl⟩ : ∃ k', y' = .item k' := by
    cases hiso.agree hpaired with
    | item _ => exact ⟨_, rfl⟩
  have hobject := hiso.object? hpaired
  rw [ho] at hobject
  obtain ⟨o', ho', -⟩ := exists_of_some_rel hobject
  exact ⟨k', ⟨hy', o', ho'⟩, hpaired⟩

/-! ### Sources -/

theorem formWithin_eq (n : Nat) : ∀ {i i' : ItemId}, R (.item i) (.item i') → g.formWithin n i = g'.formWithin n i' := by
  induction n with
  | zero => exact fun _ => rfl
  | succ n ih =>
    intro i i' hi
    have hitem := hiso.item hi
    rw [formWithin, formWithin]
    generalize g.item i = item, g'.item i' = item' at hitem
    cases hitem with
    | scalar s => rfl
    | array he => exact congrArg Go.Form.list (ih he)
    | object ho =>
      exact congrArg₂ (fun name empty => Go.Form.record ⟨name, empty⟩) ho.typeName_eq ho.properties.isEmpty_eq

variable (hg : g.WalksEnd) (hg' : g'.WalksEnd)

include hg hg'

theorem form_eq (hi : R (.item i) (.item i')) : g.form i = g'.form i' := by
  obtain ⟨hpresent, hpresent'⟩ := hiso.present hi
  rw [← hg.form hpresent (le_max_left g.depth g'.depth), ← hg'.form hpresent' (le_max_right g.depth g'.depth)]
  exact hiso.formWithin_eq _ hi

theorem member_eq (hp : R (.property p) (.property p')) : g.member p = g'.member p' := by
  have hform := hiso.form_eq hg hg' (hiso.held hp)
  rw [member, member, hiso.field_eq hp, hform]

theorem record_eq {o o' : ObjectNode} (ho : o.Matches R o') : g.record o = g'.record o' := by
  have hmembers : o.properties.elements.map g.member = o'.properties.elements.map g'.member := by
    rw [← List.forall₂_eq_eq_eq, List.forall₂_map_left_iff, List.forall₂_map_right_iff]
    exact ho.properties.elements.imp fun _ _ hp => hiso.member_eq hg hg' hp
  rw [record, record, ho.typeName_eq, hmembers]

/-- **Paired objects are written alike.** -/
theorem records_eq {objects objects' : Registry ItemId}
    (hobjects : objects.Rel (fun i i' => R (.item i) (.item i')) objects') :
    Go.records g objects = Go.records g' objects' := by
  rw [Go.records, Go.records]
  have helements := hobjects.elements
  generalize objects.elements = is, objects'.elements = is' at helements
  induction helements with
  | nil => rfl
  | cons hi _ ih =>
    have hobject := hiso.object? hi
    rw [List.filterMap_cons, List.filterMap_cons, ih]
    generalize g.object? _ = o, g'.object? _ = o' at hobject
    cases hobject with
    | none => rfl
    | some ho => simp only [Option.map_some, hiso.record_eq hg hg' ho]

end Graph.Isomorphism

namespace Conversion

/-! ### Collections -/

/-- Schemas of two graphs with paired root properties and the same identifiers. -/
structure Abreast (g g' : Graph) (R : Node → Node → Prop) (schemas schemas' : Registry Schema) : Prop where
  isomorphism : Isomorphism g g' R
  hasRoot : ∀ s ∈ schemas.elements, s.HasRoot g
  hasRoot' : ∀ s' ∈ schemas'.elements, s'.HasRoot g'
  exists_left : ∀ s ∈ schemas.elements, ∃ s' ∈ schemas'.elements,
    s.id = s'.id ∧ R (.property s.root) (.property s'.root)
  exists_right : ∀ s' ∈ schemas'.elements, ∃ s ∈ schemas.elements,
    s.id = s'.id ∧ R (.property s.root) (.property s'.root)

namespace Abreast

variable {schemas schemas' : Registry Schema}

theorem symm (h : Abreast g g' R schemas schemas') : Abreast g' g (fun x' x => R x x') schemas' schemas where
  isomorphism := h.isomorphism.symm
  hasRoot := h.hasRoot'
  hasRoot' := h.hasRoot
  exists_left s' hs' := (h.exists_right s' hs').imp fun _ hs => ⟨hs.1, hs.2.1.symm, hs.2.2⟩
  exists_right s hs := (h.exists_left s hs).imp fun _ hs' => ⟨hs'.1, hs'.2.1.symm, hs'.2.2⟩

variable (h : Abreast g g' R schemas schemas')

include h

theorem exists_mem_nested (hk : k ∈ nested g schemas) : ∃ k' ∈ nested g' schemas', R (.item k) (.item k') := by
  obtain ⟨s, hs, p, hp, hk⟩ := hk
  obtain ⟨s', hs', -, hroot⟩ := h.exists_left s hs
  have hmatches := h.isomorphism.matches_of_object? (h.isomorphism.held hroot) (h.hasRoot s hs).object
    (h.hasRoot' s' hs').object
  obtain ⟨p', hp', hpaired⟩ := exists_mem_of_forall₂ hmatches.properties.elements hp
  obtain ⟨k', hk', hlast⟩ := h.isomorphism.exists_mem_objectsBelow hpaired hk
  exact ⟨k', ⟨s', hs', p', hp', hk'⟩, hlast⟩

/-- Nested objects are told apart by their names in one graph if they are in the other. -/
theorem nested_apart (happart : ∀ j ∈ nested g schemas, ∀ k ∈ nested g schemas, g.typeName j = g.typeName k → j = k) :
    ∀ j' ∈ nested g' schemas', ∀ k' ∈ nested g' schemas', g'.typeName j' = g'.typeName k' → j' = k' := by
  intro j' hj' k' hk' hname
  obtain ⟨j, hj, hpaired⟩ := h.symm.exists_mem_nested hj'
  obtain ⟨k, hk, hpaired'⟩ := h.symm.exists_mem_nested hk'
  rw [← h.isomorphism.typeName_eq hpaired, ← h.isomorphism.typeName_eq hpaired'] at hname
  obtain rfl := happart j hj k hk hname
  exact Node.item.inj ((h.isomorphism.unique hpaired hpaired').mp rfl)

theorem exists_mem_roots (hk : ∃ s ∈ schemas.elements, s.rootItem g = k) :
    ∃ k', (∃ s' ∈ schemas'.elements, s'.rootItem g' = k') ∧ R (.item k) (.item k') := by
  obtain ⟨s, hs, rfl⟩ := hk
  obtain ⟨s', hs', -, hroot⟩ := h.exists_left s hs
  exact ⟨s'.rootItem g', ⟨s', hs', rfl⟩, h.isomorphism.held hroot⟩

/-- What is kept of all objects on one side is paired with what is kept on the other. -/
theorem exists_mem_all (hk : k ∈ nested g schemas ∨
      ∃ s ∈ schemas.elements, s.rootItem g = k ∧ ∀ j ∈ nested g schemas, g.typeName j ≠ s.id) :
    ∃ k', (k' ∈ nested g' schemas' ∨
      ∃ s' ∈ schemas'.elements, s'.rootItem g' = k' ∧ ∀ j' ∈ nested g' schemas', g'.typeName j' ≠ s'.id) ∧
      R (.item k) (.item k') := by
  rcases hk with hk | ⟨s, hs, rfl, hfree⟩
  · obtain ⟨k', hk', hpaired⟩ := h.exists_mem_nested hk
    exact ⟨k', .inl hk', hpaired⟩
  · obtain ⟨s', hs', hid, hroot⟩ := h.exists_left s hs
    refine ⟨s'.rootItem g', .inr ⟨s', hs', rfl, fun j' hj' hname => ?_⟩, h.isomorphism.held hroot⟩
    obtain ⟨j, hj, hpaired⟩ := h.symm.exists_mem_nested hj'
    exact hfree j hj ((h.isomorphism.typeName_eq hpaired).trans (hname.trans hid.symm))

end Abreast

/-- **From isomorphic graphs paired objects are collected**, or neither collection comes through. -/
theorem collect_isomorphic {schemas schemas' : Registry Schema} {given given' : List Schema} {S S' : Set Node}
    {rank rank' : Node → Nat} (h : Abreast g g' R schemas schemas') (hg : Canopy g given S rank)
    (hg' : Canopy g' given' S' rank') (hrooted : Rooted g given) (hrooted' : Rooted g' given')
    (hgiven : ∀ s ∈ schemas.elements, s ∈ given) (hgiven' : ∀ s' ∈ schemas'.elements, s' ∈ given')
    (hschemas : schemas.Filed Schema.id) (hschemas' : schemas'.Filed Schema.id) :
    ExceptRel (fun found found' => found.topLevel.Rel (fun i i' => R (.item i) (.item i')) found'.topLevel ∧
      found.all.Rel (fun i i' => R (.item i) (.item i')) found'.all) (collect g schemas) (collect g' schemas') := by
  obtain ⟨found, hfound, happart, htop, hall, hmemtop, hmemall⟩ | ⟨e, herror, j, hj, k, hk, hne, hname, -⟩ :=
    collect_cases hg hrooted hgiven hschemas
  · obtain ⟨found', hfound', -, htop', hall', hmemtop', hmemall'⟩ | ⟨e, -, j, hj, k, hk, hne, hname, -⟩ :=
      collect_cases hg' hrooted' hgiven' hschemas'
    · rw [hfound, hfound']
      refine .ok ⟨?_, ?_⟩
      · refine htop.rel_of_forall_mem htop' (fun i i' => h.isomorphism.typeName_eq) (fun i hi => ?_) fun i' hi' => ?_
        · simpa only [hmemtop'] using h.exists_mem_roots ((hmemtop i).mp hi)
        · simpa only [hmemtop] using h.symm.exists_mem_roots ((hmemtop' i').mp hi')
      · refine hall.rel_of_forall_mem hall' (fun i i' => h.isomorphism.typeName_eq) (fun i hi => ?_) fun i' hi' => ?_
        · simpa only [hmemall'] using h.exists_mem_all ((hmemall i).mp hi)
        · simpa only [hmemall] using h.symm.exists_mem_all ((hmemall' i').mp hi')
    · exact absurd (h.nested_apart happart j hj k hk hname) hne
  · obtain ⟨found', -, happart', -⟩ | ⟨e', herror', -⟩ := collect_cases hg' hrooted' hgiven' hschemas'
    · exact absurd (h.symm.nested_apart happart' j hj k hk hname) hne
    · rw [herror, herror']
      exact .error e e'

end Conversion

end Schemata
