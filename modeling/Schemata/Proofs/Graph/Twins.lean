import Mathlib.Data.List.Zip
import Schemata.Proofs.Graph.Isomorphism
import Schemata.Proofs.Graph.Origins

/-!
# Twins

Definition trees that differ in the order of their fields only (`Shape.Similar`) are planted as different nodes, but the
trees below them are the same: their roots are *twins* (`Graph.Twin`). Following the same path below twins leads to nodes
that are *paired* (`Graph.Paired`). In a forest there is one path to a node at most, so pairs of nodes below twins make an
isomorphism (`Planted.isomorphism`).
-/

namespace Schemata

namespace Shape

/-- The field with a name; of two the later counts. -/
def field? : List (Field × Shape) → String → Option (Field × Shape)
  | [], _ => none
  | field :: rest, name => (field? rest name).or (if field.1.name = name then some field else none)

/-- Trees that differ in the order of their fields only, and in fields that do not count. -/
inductive Similar : Shape → Shape → Prop where
  /-- Leaves are equal. -/
  | scalar (s : Scalar) : Similar (.scalar s) (.scalar s)
  /-- The elements of arrays are similar. -/
  | array {element element' : Shape} (helement : Similar element element') : Similar (.array element) (.array element')
  /-- Records have the same fields by name, over trees that are similar. -/
  | object (typeName : String) (required : List String) {fields fields' : List (Field × Shape)}
    {r : Shape → Shape → Prop}
    (hfields : ∀ name, Option.Rel (fun a b => a.1 = b.1 ∧ r a.2 b.2) (field? fields name) (field? fields' name))
    (hr : ∀ shape shape', r shape shape' → Similar shape shape') :
    Similar (.object typeName required fields) (.object typeName required fields')

end Shape

namespace Graph

open Shape (field? Similar)

variable {b b' g g' h h' : Graph} {R R' : Node → Node → Prop} {x x' y y' : Node}

/-! ### Twins -/

/-- Nodes are twins if they agree and what they hold are twins. -/
inductive Twin (g g' : Graph) : Node → Node → Prop where
  /-- There are no twins but these. -/
  | mk {x x' : Node} {R : Node → Node → Prop} (hx : g.Present x) (hx' : g'.Present x') (hagree : g.Agree g' R x x')
    (hR : ∀ y y', R y y' → Twin g g' y y') : Twin g g' x x'

namespace Twin

theorem present (htwin : g.Twin g' x x') : g.Present x ∧ g'.Present x' := by
  cases htwin with
  | mk hx hx' _ _ => exact ⟨hx, hx'⟩

theorem agree (htwin : g.Twin g' x x') : g.Agree g' (g.Twin g') x x' := by
  cases htwin with
  | mk _ _ hagree hR => exact hagree.mono hR

theorem grown (htwin : g.Twin g' x x') (hgh : Grown g h) (hgh' : Grown g' h') : h.Twin h' x x' := by
  induction htwin with
  | mk hx hx' hagree _ ih => exact .mk (hx.grown hgh) (hx'.grown hgh') (hagree.grown hx hx' hgh hgh') ih

end Twin

/-! ### Planting similar trees -/

/-- A property has been planted with the tree that it holds, and more may have been planted since. -/
def Stood (h : Graph) (field : Field) (shape : Shape) (p : PropertyId) : Prop :=
  ∃ g : Graph, (g.plantProperty field shape).2 = p ∧ Grown (g.plantProperty field shape).1 h

/-- What is filed under a name is planted for the field with that name, if there is one, and is what it was otherwise. -/
theorem get?_plantFields (fields : List (Field × Shape)) (name : String) : ∀ (g : Graph) (filed : Registry PropertyId),
    match field? fields name with
    | some (field, shape) => ∃ p, (g.plantFields filed fields).2.get? name = some p ∧
        Stood (g.plantFields filed fields).1 field shape p
    | none => (g.plantFields filed fields).2.get? name = filed.get? name := by
  induction fields with
  | nil => exact fun _ _ => rfl
  | cons entry rest ih =>
    intro g filed
    obtain ⟨field, shape⟩ := entry
    have hrest := ih (g.plantProperty field shape).1 (filed.put field.name (g.plantProperty field shape).2)
    have hplant : g.plantFields filed ((field, shape) :: rest) =
        (g.plantProperty field shape).1.plantFields (filed.put field.name (g.plantProperty field shape).2) rest := rfl
    rw [field?, hplant]
    cases hfield : field? rest name with
    | some later =>
      rw [hfield] at hrest
      exact hrest
    | none =>
      rw [hfield] at hrest
      simp only [Registry.get?_put] at hrest
      by_cases hname : field.name = name
      · rw [if_pos hname.symm] at hrest
        rw [Option.none_or, if_pos hname]
        exact ⟨_, hrest, g, rfl, grown_plantFields _ _ rest⟩
      · rw [if_neg (Ne.symm hname)] at hrest
        rw [Option.none_or, if_neg hname]
        exact hrest

theorem ascending_plantFields (fields : List (Field × Shape)) : ∀ (g : Graph) (filed : Registry PropertyId),
    filed.keys.Pairwise (· < ·) → (g.plantFields filed fields).2.keys.Pairwise (· < ·) := by
  induction fields with
  | nil => exact fun _ _ hfiled => hfiled
  | cons entry rest ih => exact fun g filed hfiled => ih _ _ (Registry.ascending_put hfiled _ _)

/-- Properties with one field are twins if the trees that they hold are planted as twins. -/
theorem Stood.twin {field : Field} {shape shape' : Shape} {p p' : PropertyId} (hp : h.Stood field shape p)
    (hp' : h'.Stood field shape' p')
    (htwins : ∀ g g' : Graph,
      (g.plant shape).1.Twin (g'.plant shape').1 (.item (g.plant shape).2) (.item (g'.plant shape').2)) :
    h.Twin h' (.property p) (.property p') := by
  obtain ⟨g, rfl, hgrown⟩ := hp
  obtain ⟨g', rfl, hgrown'⟩ := hp'
  have hlast : ∀ (g : Graph) (shape : Shape), (g.plantProperty field shape).1.Present
      (.property (g.plantProperty field shape).2) := by
    intro g shape
    rw [plantProperty, Present, size_properties_addProperty, index_addProperty]
    exact Nat.lt_succ_self _
  have hproperty : ∀ (g : Graph) (shape : Shape), (g.plantProperty field shape).1.property
      (g.plantProperty field shape).2 = { toField := field, item := (g.plant shape).2 } :=
    fun g shape => property_addProperty_self _ _
  refine Twin.grown (.mk (R := fun x x' => x = .item (g.plant shape).2 ∧ x' = .item (g'.plant shape').2) (hlast _ _)
    (hlast _ _) (.property ?_ ?_) ?_) hgrown hgrown'
  · rw [hproperty, hproperty]
  · rw [hproperty, hproperty]
    exact ⟨rfl, rfl⟩
  · rintro _ _ ⟨rfl, rfl⟩
    exact (htwins g g').grown (grown_addProperty _ _) (grown_addProperty _ _)

/-- **Similar trees are planted as twins.** -/
theorem twin_plant {shape shape' : Shape} (hsimilar : Similar shape shape') : ∀ g g' : Graph,
    (g.plant shape).1.Twin (g'.plant shape').1 (.item (g.plant shape).2) (.item (g'.plant shape').2) := by
  have hlast : ∀ (g : Graph) (item : Item), (g.addItem item).1.Present (.item (g.addItem item).2) := by
    intro g item
    rw [Present, size_items_addItem, index_addItem]
    exact Nat.lt_succ_self _
  induction hsimilar with
  | scalar s =>
    intro g g'
    refine .mk (R := fun _ _ => False) (hlast _ _) (hlast _ _) (.item ?_) (fun _ _ h => h.elim)
    rw [plant, plant, item_addItem_self, item_addItem_self]
    exact .scalar s
  | @array element element' _ ih =>
    intro g g'
    have helement := (ih g g').grown (grown_addItem _ (.array (g.plant element).2))
      (grown_addItem _ (.array (g'.plant element').2))
    refine .mk (R := fun x x' => x = .item (g.plant element).2 ∧ x' = .item (g'.plant element').2) (hlast _ _)
      (hlast _ _) (.item ?_) ?_
    · rw [plant, plant, item_addItem_self, item_addItem_self]
      exact .array ⟨rfl, rfl⟩
    · rintro _ _ ⟨rfl, rfl⟩
      exact helement
  | @object typeName required fields fields' r hfields _ ih =>
    intro g g'
    set planted := g.plantFields ∅ fields
    set planted' := g'.plantFields ∅ fields'
    set item : Item := .object { typeName, properties := planted.2, required }
    set item' : Item := .object { typeName, properties := planted'.2, required }
    refine .mk (R := (planted.1.addItem item).1.Twin (planted'.1.addItem item').1) (hlast planted.1 item)
      (hlast planted'.1 item') (.item ?_) fun _ _ htwin => htwin
    have hascending : ∀ (g : Graph) (fields : List (Field × Shape)),
        (g.plantFields ∅ fields).2.keys.Pairwise (· < ·) :=
      fun g fields => ascending_plantFields fields g ∅ List.Pairwise.nil
    have hitem : (g.plant (.object typeName required fields)).1.item
        (g.plant (.object typeName required fields)).2 = item := item_addItem_self planted.1 item
    have hitem' : (g'.plant (.object typeName required fields')).1.item
        (g'.plant (.object typeName required fields')).2 = item' := item_addItem_self planted'.1 item'
    rw [hitem, hitem']
    refine .object ⟨rfl, rfl, Registry.rel_of_get? (hascending _ _) (hascending _ _) fun name => ?_⟩
    have hplanted := get?_plantFields fields name g ∅
    have hplanted' := get?_plantFields fields' name g' ∅
    have hboth := hfields name
    generalize field? fields name = found, field? fields' name = found' at hplanted hplanted' hboth
    cases hboth with
    | none =>
      rw [hplanted, hplanted']
      exact .none
    | @some entry entry' hentry =>
      obtain ⟨field, shape⟩ := entry
      obtain ⟨field', shape'⟩ := entry'
      obtain ⟨rfl, hshape⟩ := hentry
      obtain ⟨p, hp, hstood⟩ := hplanted
      obtain ⟨p', hp', hstood'⟩ := hplanted'
      rw [hp, hp']
      exact .some ((hstood.twin hstood' (ih _ _ hshape)).grown (grown_addItem _ _) (grown_addItem _ _))

/-! ### Pairs -/

/-- Nodes below two nodes that the same path leads to. -/
inductive Paired (g g' : Graph) (x₀ x₀' : Node) : Node → Node → Prop where
  /-- No link has been followed. -/
  | refl : Paired g g' x₀ x₀' x₀ x₀'
  /-- Links that are in the same place are followed. -/
  | step {x x' y y' : Node} (hx : Paired g g' x₀ x₀' x x') (hy : (y, y') ∈ (g.children x).zip (g'.children x')) :
    Paired g g' x₀ x₀' y y'

variable {x₀ x₀' : Node}

namespace Paired

theorem leads (hx : Paired g g' x₀ x₀' x x') : g.Leads x₀ x ∧ g'.Leads x₀' x' := by
  induction hx with
  | refl => exact ⟨.refl, .refl⟩
  | step _ hy ih =>
    obtain ⟨hmem, hmem'⟩ := List.of_mem_zip hy
    exact ⟨ih.1.tail hmem, ih.2.tail hmem'⟩

theorem symm (hx : Paired g g' x₀ x₀' x x') : Paired g' g x₀' x₀ x' x := by
  induction hx with
  | refl => exact .refl
  | step _ hy ih =>
    refine .step ih ?_
    rw [← List.zip_swap]
    exact List.mem_map.mpr ⟨_, hy, rfl⟩

/-- What is closed under links in the same place has all pairs. -/
theorem of_agree (hagree : ∀ {x x'}, R x x' → g.Agree g' R x x') (hroot : R x₀ x₀') (hx : Paired g g' x₀ x₀' x x') :
    R x x' := by
  induction hx with
  | refl => exact hroot
  | step _ hy ih => exact (List.forall₂_iff_zip.mp (hagree ih).children).2 hy

end Paired

/-- The pairs below a pair of an isomorphism make one by themselves. -/
theorem Isomorphism.paired (hiso : Isomorphism g g' R) (hroot : R x₀ x₀') : Isomorphism g g' (Paired g g' x₀ x₀') := by
  have hR : ∀ {x x'}, Paired g g' x₀ x₀' x x' → R x x' := Paired.of_agree hiso.agree hroot
  exact ⟨fun hx => hiso.present (hR hx), fun hx hy => hiso.unique (hR hx) (hR hy),
    fun hx => (hiso.agree (hR hx)).zip.mono fun _ _ hy => .step hx hy⟩

theorem eq_of_mem_zip {α β : Type} {xs : List α} (hxs : xs.Nodup) {a : α} {c c' : β} : ∀ {ys : List β},
    (a, c) ∈ xs.zip ys → (a, c') ∈ xs.zip ys → c = c' := by
  induction xs with
  | nil => exact fun h => absurd h List.not_mem_nil
  | cons x xs ih =>
    intro ys h h'
    cases ys with
    | nil => exact absurd h List.not_mem_nil
    | cons y ys =>
      obtain ⟨hx, hxs⟩ := List.nodup_cons.mp hxs
      rw [List.zip_cons_cons, List.mem_cons, Prod.mk.injEq] at h h'
      rcases h with ⟨rfl, rfl⟩ | h
      · rcases h' with ⟨-, rfl⟩ | h'
        · rfl
        · exact absurd (List.of_mem_zip h').1 hx
      · rcases h' with ⟨rfl, rfl⟩ | h'
        · exact absurd (List.of_mem_zip h).1 hx
        · exact ih hxs h h'

theorem Planted.nodup_children (hg : Planted b g) (hx : New b g x) : (g.children x).Nodup := by
  cases x with
  | property p => exact List.nodup_singleton _
  | item i =>
    rw [children_item]
    cases hitem : g.item i with
    | scalar s => exact List.nodup_nil
    | array e => exact List.nodup_singleton _
    | object o =>
      have hfiled := hg.filed hx (object?_eq_some_iff.mpr hitem)
      exact hfiled.nodup_elements.map fun _ _ => Node.property.inj

theorem Planted.eq_of_paired (hg : Planted b g) (hroot : Loose b g x₀) (hx : Paired g g' x₀ x₀' x x') :
    ∀ {y'}, Paired g g' x₀ x₀' x y' → x' = y' := by
  have hnew : ∀ {x x'}, Paired g g' x₀ x₀' x x' → New b g x := by
    intro x x' hx
    induction hx with
    | refl => exact hroot.new
    | step _ hy ih => exact hg.new_of_link ih (List.of_mem_zip hy).1
  induction hx with
  | refl =>
    intro y' hy'
    cases hy' with
    | refl => rfl
    | step hx hy => exact absurd (List.of_mem_zip hy).1 (hroot.not_link _ (hnew hx))
  | step hx hy ih =>
    intro y' hy'
    cases hy' with
    | refl => exact absurd (List.of_mem_zip hy).1 (hroot.not_link _ (hnew hx))
    | step hx' hy'' =>
      -- A node of a forest is held in one place, so that the two paths end with the same link.
      obtain rfl := hg.holder_unique (hnew hx) (hnew hx') (List.of_mem_zip hy).1 (List.of_mem_zip hy'').1
      obtain rfl := ih hx'
      exact eq_of_mem_zip (hg.nodup_children (hnew hx)) hy hy''

/-- **Pairs of nodes below twins make an isomorphism**, if the twins are on top of forests. -/
theorem Planted.isomorphism (hg : Planted b g) (hg' : Planted b' g') (hroot : Loose b g x₀) (hroot' : Loose b' g' x₀')
    (htwin : g.Twin g' x₀ x₀') : Isomorphism g g' (Paired g g' x₀ x₀') := by
  have htwins : ∀ {x x'}, Paired g g' x₀ x₀' x x' → g.Twin g' x x' := Paired.of_agree Twin.agree htwin
  refine ⟨fun hx => (htwins hx).present, fun {x x' y y'} hx hy => ⟨?_, ?_⟩, fun hx => ?_⟩
  · rintro rfl
    exact hg.eq_of_paired hroot hx hy
  · rintro rfl
    exact hg'.eq_of_paired hroot' hx.symm hy.symm
  · exact (htwins hx).agree.zip.mono fun _ _ hy => .step hx hy

end Graph

end Schemata
