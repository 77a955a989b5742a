import Schemata.Proofs.Graph.Merging
import Schemata.Proofs.Result
import Schemata.Schema

/-!
# What reading a schema plants

`Schema.read` plants the definition tree of a schema, gives the root object the property that refers to a parent, and
shares nothing. So what it adds to a graph is a forest, with the root property loose on top of an object that is
named by the identifier of the schema (`planted_read`).
-/

namespace Schemata

open Schemata.Graph (Planted Loose New Grown)

variable {b g h : Graph} {root : PropertyId}

namespace Schema

variable {id : String} {data : Entries} {s : Schema}

/-- The field of the property that refers to a parent. -/
def parentField (parent : String) : Field :=
  Shape.fieldOf rootContext (rootContext.below (parentProperty parent) (definition "string")) (parentProperty parent)

/-- The scalar of the property that refers to a parent. -/
def parentScalar (parent : String) : Scalar :=
  Shape.scalarOf (rootContext.below (parentProperty parent) (definition "string")) .string false (definition "string")

theorem parseField_parent (parent : String) :
    Shape.parseField rootContext (parentProperty parent) (definition "string") =
      .ok (parentField parent, .scalar (parentScalar parent)) := by
  have hget : (definition "string").get? "type" = some (.text "string") := by
    simp [definition, Entries.get?, Document.isKey]
  have htype : TypeClass.ofDocument? (.text "string") = some ⟨.scalar .string, false⟩ := by
    simp [TypeClass.ofDocument?, TypeToken.ofText]
  rw [Shape.parseField]
  simp only [hget, htype]
  rw [Shape.parseItem]
  rfl

theorem parseProperty_parent (g : Graph) (parent : String) :
    g.parseProperty rootContext (parentProperty parent) (definition "string") =
      .ok (g.addLeaf (parentField parent) (parentScalar parent)) := by
  rw [Graph.parseProperty, parseField_parent]
  rfl

/-- The property that refers to a parent holds a scalar that cannot be null. -/
theorem isNull_parentScalar (parent : String) : (parentScalar parent).isNull = false := by
  simp [parentScalar, Scalar.isNull, Shape.scalarOf, Shape.Context.below, rootContext]

/-- A schema with a parent is refused if its root object has a property with the name of the one that refers to the
parent. Otherwise it gets that property. -/
theorem addParent_some_eq_ok_iff {o : ObjectNode} {parent : String} (hroot : root.index < g.properties.size)
    (ho : g.object? (g.property root).item = some o)
    (hlt : ∀ p ∈ o.properties.elements, p.index < g.properties.size) :
    addParent g id root (some parent) = .ok h ↔ o.properties.get? (parentProperty parent) = none ∧
      h = (g.addLeaf (parentField parent) (parentScalar parent)).1.setItem (g.property root).item
        (.object { o with properties := o.properties.put (parentProperty parent) ⟨g.properties.size⟩ }) := by
  set next := g.addLeaf (parentField parent) (parentScalar parent) with hnext
  have hgrown : Grown g next.1 := g.grown_addLeaf _ _
  have hproperty : next.1.property root = g.property root := hgrown.property_eq root hroot
  have hobject : next.1.object? (g.property root).item = some o :=
    (Graph.object?_congr (hgrown.item_eq _ (Graph.lt_of_object? ho))).trans ho
  have hparse : g.parseProperty rootContext (parentProperty parent) (definition "string") = .ok next :=
    parseProperty_parent g parent
  have hname : next.1.propertyName next.2 = parentProperty parent := by
    rw [Graph.propertyName, hnext, Graph.addLeaf, Graph.property_addProperty_self]
    rfl
  have hnull : (next.1.held next.2).isNull = false := by
    rw [hnext, Graph.held_addLeaf]
    exact isNull_parentScalar parent
  -- The property is new, so whatever has its name is another one.
  have hfree : (∀ q, o.properties.get? (parentProperty parent) = some q → q = next.2) ↔
      o.properties.get? (parentProperty parent) = none := by
    rw [Option.eq_none_iff_forall_ne_some]
    refine forall_congr' fun q => ⟨fun heq hq => ?_, fun hnone hq => absurd hq hnone⟩
    obtain rfl := heq hq
    exact absurd (hlt _ (Registry.mem_elements_of_get? hq)) (Nat.lt_irrefl _)
  have hadd := Graph.addProperties_singleton_eq_ok_iff (h := h) hobject hnull
  rw [hname, hfree, Registry.insert, hname] at hadd
  refine Iff.trans ?_ hadd
  rw [addParent, hparse]
  simp only [bind, Except.bind, Except.mapError, hproperty]
  cases next.1.addProperties (g.property root).item (Registry.ofList next.1.propertyName [next.2]) true with
  | ok joined => simp only [pure, Except.pure, Except.ok.injEq]
  | error e => cases e <;> simp only [reduceCtorEq]

/-- Without a parent nothing is added. Otherwise the root object gets a property with a scalar that cannot be null. -/
theorem addParent_cases {o : ObjectNode} {parent : Option String} (hroot : root.index < g.properties.size)
    (ho : g.object? (g.property root).item = some o) (hfiled : o.properties.Filed g.propertyName)
    (hlt : ∀ p ∈ o.properties.elements, p.index < g.properties.size) (hadd : addParent g id root parent = .ok h) :
    h = g ∨ ∃ field scalar properties, field.mark = .after (Text.byteLength (Naming.join rootContext.path "")) ∧
      scalar.isNull = false ∧ properties.Filed (g.addLeaf field scalar).1.propertyName ∧
      (∀ q ∈ properties.elements, q = (g.addLeaf field scalar).2 ∨ q ∈ o.properties.elements) ∧
      h = (g.addLeaf field scalar).1.setItem (g.property root).item (.object { o with properties }) := by
  cases parent with
  | none => exact .inl (Except.ok.inj hadd).symm
  | some parent =>
    obtain ⟨-, rfl⟩ := (addParent_some_eq_ok_iff hroot ho hlt).mp hadd
    set next := g.addLeaf (parentField parent) (parentScalar parent) with hnext
    have hgrown : Grown g next.1 := g.grown_addLeaf _ _
    have hname : next.1.propertyName next.2 = parentProperty parent := by
      rw [Graph.propertyName, hnext, Graph.addLeaf, Graph.property_addProperty_self]
      rfl
    have hfiled' : o.properties.Filed next.1.propertyName := hfiled.congr fun p hp => by
      rw [Graph.propertyName, Graph.propertyName, hgrown.property_eq p (hlt p hp)]
    exact .inr ⟨_, _, o.properties.put (parentProperty parent) next.2, rfl, isNull_parentScalar parent, hfiled'.put hname,
      fun q hq => Registry.mem_elements_put hq, rfl⟩

/-- The property that refers to a parent is one more tree of the forest, under the root object. -/
theorem planted_addParent {o : ObjectNode} {parent : Option String} (hg : Planted b g)
    (hroot : Loose b g (.property root)) (ho : g.object? (g.property root).item = some o)
    (hadd : addParent g id root parent = .ok h) :
    Planted b h ∧ Loose b h (.property root) ∧
      ∃ o', h.object? (h.property root).item = some o' ∧ o'.typeName = o.typeName := by
  have hitem : New b g (.item (g.property root).item) := hg.new_of_link hroot.new (Graph.link_property_iff.mpr rfl)
  have hlt : ∀ p ∈ o.properties.elements, p.index < g.properties.size := fun p hp =>
    (hg.new_of_link hitem (Graph.link_item_property_iff.mpr ⟨o, ho, hp⟩)).2
  obtain rfl | ⟨field, scalar, properties, hmark, -, hfiled, hmem, rfl⟩ :=
    addParent_cases hroot.new.2 ho (hg.filed hitem ho) hlt hadd
  · exact ⟨hg, hroot, o, ho, rfl⟩
  · have hsown : Graph.Sown b g (g.addItem (.scalar scalar)).1 (Naming.join rootContext.path field.name)
        (g.addItem (.scalar scalar)).2 := Graph.sown_addItem_scalar hg scalar _
    obtain ⟨hplanted, hloose, -, hkept⟩ := hsown.addProperty hmark
    set next := g.addLeaf field scalar
    have hgrown : Grown g next.1 := g.grown_addLeaf field scalar
    have hitem' : New b next.1 (.item (g.property root).item) := hitem.grown hgrown
    have hobject : next.1.object? (g.property root).item = some o := (hitem.object?_eq hgrown).trans ho
    -- The root property stays loose: the new property is another one.
    refine ⟨hplanted.setProperties hitem' hobject hloose (g.held_addLeaf field scalar) hfiled hmem,
      (hkept _ hroot).setItem ?_, ?_⟩
    · intro hchild
      obtain ⟨q, hq, hqroot⟩ := List.mem_map.mp hchild
      obtain rfl := Node.property.inj hqroot
      rcases hmem q hq with rfl | hq
      · exact absurd hroot.new.2 (Nat.lt_irrefl _)
      · exact hroot.not_link _ hitem (Graph.link_item_property_iff.mpr ⟨o, ho, hq⟩)
    · refine ⟨{ o with properties }, ?_, rfl⟩
      rw [Graph.property_setItem, hgrown.property_eq root hroot.new.2, Graph.object?_eq_some_iff]
      exact Graph.item_setItem_self _ hitem'.2

/-- The identifier that is given for a schema. -/
def idOf? (data : Entries) : Option String :=
  (data.get? "id").bind Document.text?

/-- The parent that is given for a schema. -/
def parentOf? (data : Entries) : Option String :=
  (data.get? "parent").bind Document.text?

/-- The steps of reading a schema, if none of them fails. -/
theorem read_cases (hread : read g data = .ok (h, s)) :
    ∃ id parent bases body next, idOf? data = some id ∧ parentOf? data = parent ∧ bodyOf id data = .ok body ∧
      g.parseProperty rootContext id body = .ok next ∧ (next.1.held next.2).isObject = true ∧
      addParent next.1 id next.2 parent = .ok h ∧ s = { id, parent, bases, root := next.2 } := by
  rw [read] at hread
  cases hid : (data.get? "id").bind Document.text? with
  | none =>
    rw [hid] at hread
    cases hread
  | some id =>
    simp only [hid] at hread
    obtain ⟨bases, -, hread⟩ := bind_eq_ok_iff.mp hread
    obtain ⟨body, hbody, hread⟩ := bind_eq_ok_iff.mp hread
    obtain ⟨next, hparse, hread⟩ := bind_eq_ok_iff.mp hread
    split_ifs at hread with hobject
    · cases hread
    · obtain ⟨parented, hparent, hread⟩ := bind_eq_ok_iff.mp hread
      obtain ⟨rfl, rfl⟩ := Prod.mk.inj (Except.ok.inj hread)
      exact ⟨id, _, bases, body, next, hid, rfl, hbody, mapError_eq_ok_iff.mp hparse, by simpa using hobject, hparent, rfl⟩

/-- A property that is read is planted loose, and the objects that it holds are named by the path through it. -/
theorem planted_parseProperty {ctx : Shape.Context} {name : String} {next : Graph × PropertyId} (hg : Planted b g)
    (hparse : g.parseProperty ctx name data = .ok next) :
    Planted b next.1 ∧ Loose b next.1 (.property next.2) ∧
      ∀ k c, next.1.Encloses (next.1.property next.2).item k → next.1.object? k = some c →
        c.typeName = Naming.join ctx.path name := by
  rw [Graph.parseProperty, map_eq_ok_iff] at hparse
  obtain ⟨⟨field, shape⟩, hfield, rfl⟩ := hparse
  obtain ⟨rfl, hmark, hnamed⟩ := Shape.named_of_parseField hfield
  obtain ⟨hplanted, hloose, hbelow, -⟩ := (Graph.sown_plant shape hg hnamed).addProperty hmark
  refine ⟨hplanted, hloose, fun k c henc hc => ?_⟩
  have hname := hbelow.typeName_eq k c henc hc
  rwa [Graph.propertyName, Graph.property_addProperty_self] at hname

/-- Reading a schema plants a forest on the graph, with the root property loose on top of the root object. -/
theorem planted_read (hread : read g data = .ok (h, s)) :
    Planted g h ∧ Loose g h (.property s.root) ∧
      ∃ o, h.object? (h.property s.root).item = some o ∧ o.typeName = s.id := by
  obtain ⟨id, parent, bases, body, next, -, -, -, hparse, hobject, hparent, rfl⟩ := read_cases hread
  obtain ⟨hplanted, hloose, htop⟩ := planted_parseProperty (Planted.refl g) hparse
  obtain ⟨o, ho⟩ := Graph.exists_object?_of_isObject hobject
  obtain ⟨hplanted', hloose', o', ho', hname⟩ := planted_addParent hplanted hloose ho hparent
  exact ⟨hplanted', hloose', o', ho', hname.trans (htop _ o (.refl _) ho)⟩

/-- The result of parsing is what was read with its equal subtrees shared. -/
theorem parse_eq_of_read (hread : read g data = .ok (h, s)) :
    parse g data = .ok (h.dedup s.root sharingLevel, s) := by
  rw [parse, hread]
  rfl

/-- The result of parsing, if the plan for sharing is known. -/
theorem parse_eq_of_plan_eq {result : Graph × Schema} (plan : List (Sharing.Redirection Node))
    (hread : read g data = .ok result)
    (hplan : Graph.linked.plan result.1 (.property result.2.root) sharingLevel = plan) :
    parse g data = .ok (plan.foldl Graph.redirect result.1, result.2) := by
  rw [parse_eq_of_read hread, Graph.dedup, Sharing.Linked.share, hplan]
  rfl

/-- A schema without equal subtrees stays as it was read. -/
theorem parse_eq_of_plan_eq_nil {result : Graph × Schema} (hread : read g data = .ok result)
    (hplan : Graph.linked.plan result.1 (.property result.2.root) sharingLevel = []) :
    parse g data = .ok result :=
  parse_eq_of_plan_eq [] hread hplan

end Schema

end Schemata
