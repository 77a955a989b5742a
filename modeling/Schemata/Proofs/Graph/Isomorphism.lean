import Schemata.Proofs.Graph.Walks
import Schemata.Proofs.Sharing.Relabelling

/-!
# Isomorphic graphs

The identities of nodes depend on the order in which they were added to a graph, and nothing that is read off a graph
should. An *isomorphism* pairs nodes of two graphs off (`Graph.Isomorphism`): paired nodes are of one kind, with the same
fields, names and values, and what they hold is paired in turn. Each node is paired with one node at most, so that nodes
are shared in one graph where they are in the other. Nodes that are not paired at all may be anything.

An isomorphism stays one when both graphs are changed in the same way: when paired nodes are updated with matching
contents, when objects are renamed through a mark, and when equal subtrees are shared below paired properties
(`Isomorphism.dedup`).
-/

namespace Schemata

/-- Objects differ in the identities of their properties only, and these are related. -/
structure ObjectNode.Matches (R : Node → Node → Prop) (o o' : ObjectNode) : Prop where
  typeName_eq : o.typeName = o'.typeName
  required_eq : o.required = o'.required
  properties : o.properties.Rel (fun p p' => R (.property p) (.property p')) o'.properties

/-- Items differ in the identities of what they hold only, and these are related. -/
inductive Item.Matches (R : Node → Node → Prop) : Item → Item → Prop where
  /-- Scalars are equal. -/
  | scalar (s : Scalar) : Matches R (.scalar s) (.scalar s)
  /-- The elements of arrays are related. -/
  | array {e e' : ItemId} (he : R (.item e) (.item e')) : Matches R (.array e) (.array e')
  /-- The properties of objects are related. -/
  | object {o o' : ObjectNode} (ho : o.Matches R o') : Matches R (.object o) (.object o')

namespace Item.Matches

variable {R : Node → Node → Prop} {item item' : Item} (hitem : item.Matches R item')

include hitem

theorem fingerprint_eq : item.fingerprint = item'.fingerprint := by
  cases hitem <;> rfl

theorem isNull_eq : item.isNull = item'.isNull := by
  cases hitem <;> rfl

theorem isObject_eq : item.isObject = item'.isObject := by
  cases hitem <;> rfl

theorem children : List.Forall₂ R item.children item'.children := by
  cases hitem with
  | scalar s => exact .nil
  | array he => exact .cons he .nil
  | object ho => exact List.forall₂_map_left_iff.mpr (List.forall₂_map_right_iff.mpr ho.properties.elements)

theorem symm : item'.Matches (fun x' x => R x x') item := by
  cases hitem with
  | scalar s => exact .scalar s
  | array he => exact .array he
  | object ho => exact .object ⟨ho.typeName_eq.symm, ho.required_eq.symm, ho.properties.symm⟩

end Item.Matches

namespace Graph

open Sharing (Redirection Tree)

/-- Nodes of two graphs differ in the identities of what they hold only, and these are related. -/
inductive Agree (g g' : Graph) (R : Node → Node → Prop) : Node → Node → Prop where
  /-- Properties have the same field. -/
  | property {p p' : PropertyId} (hfield : (g.property p).toField = (g'.property p').toField)
    (hitem : R (.item (g.property p).item) (.item (g'.property p').item)) : Agree g g' R (.property p) (.property p')
  /-- Items match. -/
  | item {i i' : ItemId} (hitem : (g.item i).Matches R (g'.item i')) : Agree g g' R (.item i) (.item i')

namespace Agree

variable {g g' h h' : Graph} {R R' : Node → Node → Prop} {x x' : Node}

theorem mono (hagree : g.Agree g' R x x') (hR : ∀ y y', R y y' → R' y y') : g.Agree g' R' x x' := by
  cases hagree with
  | property hfield hitem => exact .property hfield (hR _ _ hitem)
  | item hitem =>
    refine .item ?_
    generalize g.item _ = item, g'.item _ = item' at hitem
    cases hitem with
    | scalar s => exact .scalar s
    | array he => exact .array (hR _ _ he)
    | object ho => exact .object ⟨ho.typeName_eq, ho.required_eq, ho.properties.mono fun _ _ => hR _ _⟩

theorem children (hagree : g.Agree g' R x x') : List.Forall₂ R (g.children x) (g'.children x') := by
  cases hagree with
  | property _ hitem => exact .cons hitem .nil
  | item hitem =>
    rw [children_item, children_item]
    exact hitem.children

/-- Nodes that agree hold their children in the same places. -/
theorem zip (hagree : g.Agree g' R x x') :
    g.Agree g' (fun y y' => (y, y') ∈ (g.children x).zip (g'.children x')) x x' := by
  cases hagree with
  | property hfield hitem => exact .property hfield (by simp [Graph.children])
  | @item i i' hitem =>
    refine .item ?_
    rw [children_item, children_item]
    generalize g.item i = item, g'.item i' = item' at hitem
    cases hitem with
    | scalar s => exact .scalar s
    | array he => exact .array (by simp [Item.children])
    | @object o o' ho =>
      refine .object ⟨ho.typeName_eq, ho.required_eq, ?_⟩
      rw [Item.children, Item.children, List.zip_map]
      rw [Registry.Rel, List.forall₂_iff_zip]
      refine ⟨ho.properties.length_eq, fun {a c} hac => ⟨?_, ?_⟩⟩
      · exact ((List.forall₂_iff_zip.mp ho.properties).2 hac).1
      · rw [Registry.elements, Registry.elements, List.zip_map, List.map_map]
        exact List.mem_map.mpr ⟨(a, c), hac, rfl⟩

theorem grown (hagree : g.Agree g' R x x') (hx : g.Present x) (hx' : g'.Present x') (hgh : Grown g h)
    (hgh' : Grown g' h') : h.Agree h' R x x' := by
  cases hagree with
  | @property p p' hfield hitem =>
    rw [← hgh.property_eq p hx, ← hgh'.property_eq p' hx'] at hfield hitem
    exact .property hfield hitem
  | @item i i' hitem =>
    rw [← hgh.item_eq i hx, ← hgh'.item_eq i' hx'] at hitem
    exact .item hitem

end Agree

/-- An isomorphism between parts of two graphs: it pairs nodes off, and paired nodes agree. -/
structure Isomorphism (g g' : Graph) (R : Node → Node → Prop) : Prop where
  present : ∀ {x x' : Node}, R x x' → g.Present x ∧ g'.Present x'
  unique : ∀ {x x' y y' : Node}, R x x' → R y y' → (x = y ↔ x' = y')
  agree : ∀ {x x' : Node}, R x x' → g.Agree g' R x x'

variable {g g' h h' : Graph} {R : Node → Node → Prop} {i i' : ItemId} {p p' : PropertyId} {x x' : Node}

namespace Isomorphism

variable (hiso : Isomorphism g g' R)

include hiso

/-! ### Reading -/

theorem field_eq (hp : R (.property p) (.property p')) : (g.property p).toField = (g'.property p').toField := by
  cases hiso.agree hp with
  | property hfield _ => exact hfield

theorem held (hp : R (.property p) (.property p')) : R (.item (g.property p).item) (.item (g'.property p').item) := by
  cases hiso.agree hp with
  | property _ hitem => exact hitem

theorem item (hi : R (.item i) (.item i')) : (g.item i).Matches R (g'.item i') := by
  cases hiso.agree hi with
  | item hitem => exact hitem

theorem propertyName_eq (hp : R (.property p) (.property p')) : g.propertyName p = g'.propertyName p' :=
  congrArg Field.name (hiso.field_eq hp)

theorem object? (hi : R (.item i) (.item i')) : Option.Rel (ObjectNode.Matches R) (g.object? i) (g'.object? i') := by
  have hitem := hiso.item hi
  rw [Graph.object?, Graph.object?]
  generalize g.item i = item, g'.item i' = item' at hitem
  cases hitem with
  | scalar s => exact .none
  | array he => exact .none
  | object ho => exact .some ho

theorem matches_of_object? {o o' : ObjectNode} (hi : R (.item i) (.item i')) (ho : g.object? i = some o)
    (ho' : g'.object? i' = some o') : o.Matches R o' := by
  have hobject := hiso.object? hi
  rw [ho, ho'] at hobject
  cases hobject with
  | some hmatches => exact hmatches

theorem typeName_eq (hi : R (.item i) (.item i')) : g.typeName i = g'.typeName i' := by
  have hobject := hiso.object? hi
  rw [typeName, typeName]
  generalize g.object? i = o, g'.object? i' = o' at hobject
  cases hobject with
  | none => rfl
  | some ho => exact ho.typeName_eq

theorem fingerprint_eq (hx : R x x') : g.fingerprint x = g'.fingerprint x' := by
  cases hiso.agree hx with
  | property hfield _ => exact congrArg Field.name hfield
  | item hitem => exact hitem.fingerprint_eq

theorem children (hx : R x x') : List.Forall₂ R (g.children x) (g'.children x') :=
  (hiso.agree hx).children

theorem symm : Isomorphism g' g fun x' x => R x x' := by
  refine ⟨fun hx => (hiso.present hx).symm, fun hx hy => (hiso.unique hx hy).symm, fun hx => ?_⟩
  cases hiso.agree hx with
  | property hfield hitem => exact .property hfield.symm hitem
  | item hitem => exact .item hitem.symm

/-- What is added to the graphs does not matter. -/
theorem grown (hgh : Grown g h) (hgh' : Grown g' h') : Isomorphism h h' R := by
  refine ⟨fun hx => ⟨(hiso.present hx).1.grown hgh, (hiso.present hx).2.grown hgh'⟩, hiso.unique, fun hx => ?_⟩
  obtain ⟨hpresent, hpresent'⟩ := hiso.present hx
  exact (hiso.agree hx).grown hpresent hpresent' hgh hgh'

/-! ### Updates -/

theorem setItem {item item' : Item} (hi : R (.item i) (.item i')) (hitem : item.Matches R item') :
    Isomorphism (g.setItem i item) (g'.setItem i' item') R := by
  obtain ⟨hlt, hlt'⟩ := hiso.present hi
  refine ⟨fun {x x'} hx => ?_, hiso.unique, fun {x x'} hx => ?_⟩
  · obtain ⟨hpresent, hpresent'⟩ := hiso.present hx
    cases hiso.agree hx with
    | property _ _ => exact ⟨hpresent, hpresent'⟩
    | item _ =>
      rw [Present, Present, size_items_setItem, size_items_setItem]
      exact ⟨hpresent, hpresent'⟩
  · cases hiso.agree hx with
    | property hfield hheld => exact .property hfield hheld
    | @item j j' hj =>
      have hiff : j = i ↔ j' = i' := by simpa using hiso.unique hx hi
      refine .item ?_
      by_cases heq : j = i
      · rw [heq, hiff.mp heq, item_setItem_self _ hlt, item_setItem_self _ hlt']
        exact hitem
      · rw [item_setItem_of_ne _ heq, item_setItem_of_ne _ (hiff.not.mp heq)]
        exact hj

theorem setProperty {property property' : Property} (hp : R (.property p) (.property p'))
    (hfield : property.toField = property'.toField) (hheld : R (.item property.item) (.item property'.item)) :
    Isomorphism (g.setProperty p property) (g'.setProperty p' property') R := by
  obtain ⟨hlt, hlt'⟩ := hiso.present hp
  refine ⟨fun {x x'} hx => ?_, hiso.unique, fun {x x'} hx => ?_⟩
  · obtain ⟨hpresent, hpresent'⟩ := hiso.present hx
    cases hiso.agree hx with
    | item _ => exact ⟨hpresent, hpresent'⟩
    | property _ _ =>
      rw [Present, Present, size_properties_setProperty, size_properties_setProperty]
      exact ⟨hpresent, hpresent'⟩
  · cases hiso.agree hx with
    | item hitem => exact .item hitem
    | @property q q' hqfield hqheld =>
      have hiff : q = p ↔ q' = p' := by simpa using hiso.unique hx hp
      by_cases heq : q = p
      · refine .property ?_ ?_
        · rwa [heq, hiff.mp heq, property_setProperty_self _ hlt, property_setProperty_self _ hlt']
        · rwa [heq, hiff.mp heq, property_setProperty_self _ hlt, property_setProperty_self _ hlt']
      · refine .property ?_ ?_
        · rwa [property_setProperty_of_ne _ heq, property_setProperty_of_ne _ (hiff.not.mp heq)]
        · rwa [property_setProperty_of_ne _ heq, property_setProperty_of_ne _ (hiff.not.mp heq)]

theorem followMark (hp : R (.property p) (.property p')) (m : Mark) :
    Isomorphism (g.followMark p m) (g'.followMark p' m) R := by
  have hfield := hiso.field_eq hp
  refine hiso.setProperty hp ?_ (hiso.held hp)
  rw [hfield]

end Isomorphism

/-! ### Renames -/

/-- A rename does the same to paired nodes, and leaves the same mark. -/
theorem Isomorphism.renameWithin (n : Nat) : ∀ {g g' : Graph} {i i' : ItemId} {m : Mark}, Isomorphism g g' R →
    R (.item i) (.item i') → Isomorphism (Graph.renameWithin n g i m).1 (Graph.renameWithin n g' i' m).1 R ∧
      (Graph.renameWithin n g i m).2 = (Graph.renameWithin n g' i' m).2 := by
  induction n with
  | zero => exact fun hiso _ => ⟨hiso, rfl⟩
  | succ n ih =>
    intro g g' i i' m hiso hi
    have hitem := hiso.item hi
    rw [Graph.renameWithin, Graph.renameWithin]
    generalize g.item i = item, g'.item i' = item' at hitem
    cases hitem with
    | scalar s => exact ⟨hiso, rfl⟩
    | array he => exact ih hiso he
    | @object o o' ho =>
      simp only [← ho.typeName_eq]
      cases m.rename? o.typeName with
      | none => exact ⟨hiso, rfl⟩
      | some renamed =>
        have hnamed : Isomorphism (g.setItem i (.object { o with typeName := renamed.2 }))
            (g'.setItem i' (.object { o' with typeName := renamed.2 })) R :=
          hiso.setItem hi (.object ⟨rfl, ho.required_eq, ho.properties⟩)
        refine List.rel_foldl (P := fun a b : Graph × Mark => Isomorphism a.1 b.1 R ∧ a.2 = b.2) ?_
          (And.intro hnamed (Eq.refl renamed.1)) ho.properties.elements
        rintro ⟨g, m⟩ ⟨g', m'⟩ ⟨hiso, rfl⟩ p p' hp
        exact ih (hiso.followMark hp m) (hiso.held hp)

namespace Isomorphism

variable (hiso : Isomorphism g g' R)

include hiso

/-- The bounds on the depth of a rename may differ, as long as neither is reached. -/
theorem rename (hg : g.WalksEnd) (hg' : g'.WalksEnd) (hi : R (.item i) (.item i')) (m : Mark) :
    Isomorphism (g.rename i m).1 (g'.rename i' m).1 R ∧ (g.rename i m).2 = (g'.rename i' m).2 := by
  obtain ⟨hpresent, hpresent'⟩ := hiso.present hi
  rw [← hg.rename m hpresent (le_max_left g.depth g'.depth), ← hg'.rename m hpresent' (le_max_right g.depth g'.depth)]
  exact hiso.renameWithin _ hi

/-! ### Redirections -/

theorem replaceElement {source source' destination destination' : ItemId} (hi : R (.item i) (.item i'))
    (hsource : R (.item source) (.item source')) (hdestination : R (.item destination) (.item destination')) :
    Isomorphism (g.replaceElement i source destination) (g'.replaceElement i' source' destination') R := by
  have hitem := hiso.item hi
  rw [Graph.replaceElement, Graph.replaceElement]
  generalize g.item i = item, g'.item i' = item' at hitem
  cases hitem with
  | scalar s => exact hiso
  | object ho => exact hiso
  | @array e e' he =>
    have hiff : e = destination ↔ e' = destination' := by simpa using hiso.unique he hdestination
    by_cases heq : e = destination
    · simp only [heq, hiff.mp heq, if_true]
      exact hiso.setItem hi (.array hsource)
    · simp only [heq, hiff.not.mp heq, if_false]
      exact hiso

theorem replaceProperty {source source' destination destination' : PropertyId} (hi : R (.item i) (.item i'))
    (hsource : R (.property source) (.property source'))
    (hdestination : R (.property destination) (.property destination')) :
    Isomorphism (g.replaceProperty i source destination) (g'.replaceProperty i' source' destination') R := by
  have hitem := hiso.item hi
  rw [Graph.replaceProperty, Graph.replaceProperty, ← hiso.propertyName_eq hdestination]
  generalize g.item i = item, g'.item i' = item' at hitem
  cases hitem with
  | scalar s => exact hiso
  | array he => exact hiso
  | @object o o' ho =>
    have hcontains : o.properties.contains (g.propertyName destination) =
        o'.properties.contains (g.propertyName destination) := by
      have hget := ho.properties.get? (g.propertyName destination)
      rw [Registry.contains, Registry.contains]
      generalize o.properties.get? _ = found, o'.properties.get? _ = found' at hget
      cases hget <;> rfl
    simp only [← hcontains]
    split_ifs
    · refine hiso.setItem hi (.object ⟨ho.typeName_eq, ho.required_eq, ?_⟩)
      rw [Registry.insert, Registry.insert, ← hiso.propertyName_eq hsource]
      exact (ho.properties.erase _).put _ hsource
    · exact hiso

end Isomorphism

/-- While a property is being redirected the graph is as sound as it is afterwards: the rest is names and marks. -/
theorem Sound.setItemOf {source : ItemId} (hg : g.Sound) (hnext : (g.replaceItem p source (g.property p).item).Sound) :
    (g.setProperty p { g.property p with item := source }).Sound := by
  have hmoved : Moved (g.setProperty p { g.property p with item := source }) []
      (g.replaceItem p source (g.property p).item) := by
    rw [Graph.replaceItem, if_pos rfl]
    exact ((Moved.refl _).rename source _).setMark p _
  have hlink : ∀ {x y}, (g.replaceItem p source (g.property p).item).Link x y ↔
      (g.setProperty p { g.property p with item := source }).Link x y := fun {x y} => by
    rw [Link, Link, hmoved.children_eq]
  have hpresent : ∀ {x}, (g.replaceItem p source (g.property p).item).Present x ↔
      (g.setProperty p { g.property p with item := source }).Present x := by
    intro x
    cases x with
    | item i => rw [Present, Present, hmoved.items_size]
    | property q => rw [Present, Present, hmoved.properties_size]
  refine ⟨fun hx hxy => hpresent.mp (hnext.present (hpresent.mpr hx) (hlink.mpr hxy)), ?_, fun {i o} ho => ?_⟩
  · have hchildren : (g.setProperty p { g.property p with item := source }).children =
        (g.replaceItem p source (g.property p).item).children := funext fun x => (hmoved.children_eq x).symm
    rw [hchildren]
    exact hnext.acyclic
  · have hname : ({ g.property p with item := source } : Property).name = g.propertyName p := rfl
    exact (hg.filed ho).congr fun q _ => fingerprint_setProperty hname (.property q)

namespace Isomorphism

variable (hiso : Isomorphism g g' R) (hg : g.Sound) (hg' : g'.Sound)

include hiso hg hg'

theorem replaceItem {source source' destination destination' : ItemId} (hp : R (.property p) (.property p'))
    (hsource : R (.item source) (.item source')) (hdestination : R (.item destination) (.item destination'))
    (hnext : (g.replaceItem p source destination).Sound) (hnext' : (g'.replaceItem p' source' destination').Sound) :
    Isomorphism (g.replaceItem p source destination) (g'.replaceItem p' source' destination') R := by
  have hiff : (g.property p).item = destination ↔ (g'.property p').item = destination' := by
    simpa using hiso.unique (hiso.held hp) hdestination
  by_cases heq : (g.property p).item = destination
  · obtain rfl := heq
    obtain rfl := hiff.mp rfl
    have hmid : Isomorphism (g.setProperty p { g.property p with item := source })
        (g'.setProperty p' { g'.property p' with item := source' }) R :=
      hiso.setProperty hp (hiso.field_eq hp) hsource
    have hmark : (g.property p).mark = (g'.property p').mark := congrArg Field.mark (hiso.field_eq hp)
    obtain ⟨hrenamed, hmarks⟩ := hmid.rename (hg.setItemOf hnext).walksEnd (hg'.setItemOf hnext').walksEnd hsource
      (g.property p).mark
    rw [Graph.replaceItem, Graph.replaceItem, if_pos rfl, if_pos rfl, ← hmark]
    refine hrenamed.setProperty hp ?_ (hrenamed.held hp)
    exact congrArg₂ (fun (field : Field) mark => { field with mark }) (hrenamed.field_eq hp) hmarks
  · rw [Graph.replaceItem, Graph.replaceItem, if_neg heq, if_neg (hiff.not.mp heq)]
    exact hiso

/-- A redirection of paired nodes. -/
theorem redirect (r : Redirection { x : Node × Node // R x.1 x.2 }) (hnext : (g.redirect (r.map (·.1.1))).Sound)
    (hnext' : (g'.redirect (r.map (·.1.2))).Sound) :
    Isomorphism (g.redirect (r.map (·.1.1))) (g'.redirect (r.map (·.1.2))) R := by
  obtain ⟨⟨⟨holder, holder'⟩, hholder⟩, ⟨⟨source, source'⟩, hsource⟩, ⟨⟨destination, destination'⟩, hdestination⟩⟩ := r
  cases hiso.agree hholder with
  | property _ _ =>
    cases hiso.agree hsource with
    | property _ _ => exact hiso
    | item _ =>
      cases hiso.agree hdestination with
      | property _ _ => exact hiso
      | item _ => exact hiso.replaceItem hg hg' hholder hsource hdestination hnext hnext'
  | item _ =>
    cases hiso.agree hsource with
    | property _ _ =>
      cases hiso.agree hdestination with
      | property _ _ => exact hiso.replaceProperty hholder hsource hdestination
      | item _ => exact hiso
    | item _ =>
      cases hiso.agree hdestination with
      | property _ _ => exact hiso
      | item _ => exact hiso.replaceElement hholder hsource hdestination

/-- **Sharing keeps an isomorphism.** The plans are made of paired nodes, and each redirection does the same to both
graphs. -/
theorem dedup (hp : R (.property p) (.property p')) (level : Nat) :
    Isomorphism (g.dedup p level) (g'.dedup p' level) R := by
  obtain ⟨hpresent, hpresent'⟩ := hiso.present hp
  obtain ⟨pairs, hplan, hplan'⟩ := Sharing.exists_pairs_of_plan (R := R) hiso.fingerprint_eq hiso.children hp
    (max (linked.bound g) (linked.bound g')) level
  rw [hg.walksEnd.tree hpresent (le_max_left _ _)] at hplan
  rw [hg'.walksEnd.tree hpresent' (le_max_right _ _)] at hplan'
  replace hplan : linked.plan g (.property p) level = pairs.map (Redirection.map (·.1.1)) := hplan
  replace hplan' : linked.plan g' (.property p') level = pairs.map (Redirection.map (·.1.2)) := hplan'
  have hshare : g.dedup p level = (pairs.map (Redirection.map (·.1.1))).foldl Graph.redirect g :=
    congrArg (List.foldl Graph.redirect g) hplan
  have hshare' : g'.dedup p' level = (pairs.map (Redirection.map (·.1.2))).foldl Graph.redirect g' :=
    congrArg (List.foldl Graph.redirect g') hplan'
  rw [hshare, hshare']
  -- What has been redirected so far is part of the plan, so that the graphs are sound at every step.
  have hsound : ∀ {rs : List (Redirection { x : Node × Node // R x.1 x.2 })}, (∀ r ∈ rs, r ∈ pairs) →
      ((rs.map (Redirection.map (·.1.1))).foldl Graph.redirect g).Sound ∧
        ((rs.map (Redirection.map (·.1.2))).foldl Graph.redirect g').Sound := by
    intro rs hrs
    refine ⟨hg.foldl_redirect hpresent level fun r hr => ?_, hg'.foldl_redirect hpresent' level fun r hr => ?_⟩
    · obtain ⟨pair, hpair, rfl⟩ := List.mem_map.mp hr
      exact hplan ▸ List.mem_map_of_mem (hrs pair hpair)
    · obtain ⟨pair, hpair, rfl⟩ := List.mem_map.mp hr
      exact hplan' ▸ List.mem_map_of_mem (hrs pair hpair)
  suffices hall : ∀ rs : List (Redirection { x : Node × Node // R x.1 x.2 }), (∀ r ∈ rs, r ∈ pairs) →
      Isomorphism ((rs.map (Redirection.map (·.1.1))).foldl Graph.redirect g)
        ((rs.map (Redirection.map (·.1.2))).foldl Graph.redirect g') R from hall pairs fun _ hr => hr
  intro rs
  induction rs using List.reverseRecOn with
  | nil => exact fun _ => hiso
  | append_singleton rs r ih =>
    intro hrs
    have hbefore : ∀ r ∈ rs, r ∈ pairs := fun r hr => hrs r (by simp [hr])
    have hafter := hsound hrs
    rw [List.map_append, List.map_append, List.foldl_append, List.foldl_append] at hafter ⊢
    exact (ih hbefore).redirect (hsound hbefore).1 (hsound hbefore).2 r hafter.1 hafter.2

end Isomorphism

end Graph

end Schemata
