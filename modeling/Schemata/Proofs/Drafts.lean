import Schemata.Proofs.Flags
import Schemata.Proofs.Invariance.Documents

/-!
# Schemas without their parents

A schema is read as if it had no parent, and the property that refers to the parent is added at the end
(`Schema.read_eq_addParent`). What is read first is a draft (`Schema.Draft`): its root object has a property for each name
that the body defines, and nothing else (`Graph.isSome_get?_iff_of_parseProperty`).

The parent is refused only if its name is taken. So a schema is refused for its parent exactly if it can be read without
the parent and its body defines the name that the property would have (`Schema.parse_eq_parentCollision_iff`).
-/

namespace Schemata

open Schemata.Graph (Grown)
open Shape (Context field?)

/-! ### Entries under other keys -/

namespace Entries

variable {entries : Entries} {name key : String}

/-- The entries without those under a key. -/
def without (entries : Entries) (name : String) : Entries :=
  entries.filter fun (key, _) => !key.isKey name

theorem get?_without_self (entries : Entries) (name : String) : (entries.without name).get? name = none := by
  rw [get?, without, List.find?_filter, Option.map_eq_none_iff, List.find?_eq_none]
  intro entry _
  simp

theorem get?_without_of_ne (hne : key ≠ name) : (entries.without name).get? key = entries.get? key := by
  rw [get?, get?, without, List.find?_filter]
  congr 2
  funext entry
  obtain ⟨k, _⟩ := entry
  cases k with
  | text s =>
    -- A key that is one text is no other text.
    by_cases hs : s = key
    · simp [Document.isKey, hs, hne]
    · simp [Document.isKey, hs]
  | _ => simp [Document.isKey]

/-- The definitions of properties in a definition. -/
def definitions (data : Entries) : Entries :=
  ((data.get? "properties").bind Document.entries?).getD []

/-- The names of the properties that a definition defines, read through tags. -/
def definedNames (data : Entries) : List String :=
  data.definitions.filterMap fun (key, _) => key.text?

end Entries

/-! ### Reading the root object -/

/-- No other token selects a kind that has the name of the kind of texts. -/
theorem TypeToken.eq_string_of_name_eq {token : String} {kind : ScalarKind} (htoken : ofText token = .scalar kind)
    (hname : kind.name = "string") : kind = .string := by
  unfold ofText at htoken
  split at htoken <;> cases htoken
  · rfl
  · exact absurd hname (by decide)
  · exact absurd hname (by decide)
  · exact absurd hname (by decide)
  · exact absurd hname (by decide)
  · -- A token that is passed through is none of those before it.
    rename_i hstring _ _ _ _
    exact absurd hname hstring

theorem TypeClass.exists_ofText {d : Document} {type : TypeClass} (htype : ofDocument? d = some type) :
    ∃ token, type.token = .ofText token := by
  cases d with
  | text token => exact ⟨token, congrArg TypeClass.token (Option.some.inj htype).symm⟩
  | list tokens =>
    obtain ⟨token, -, rfl⟩ := Option.map_eq_some_iff.mp htype
    exact ⟨token, rfl⟩
  | _ => exact nomatch htype

namespace Shape

variable {ctx : Context} {type : TypeClass} {name : String} {data : Entries} {shape : Shape} {field : Field × Shape}
  {fields : List (Field × Shape)}

/-- What an item is read as: a scalar of the kind of its type, an array of what its items are, or an object with fields for
the definitions. -/
theorem parseItem_cases (hparse : parseItem ctx type data = .ok shape) :
    (∃ kind, type.token = .scalar kind ∧ shape = .scalar (scalarOf ctx kind type.nullable data)) ∨
    (∃ items element inner, type.token = .array ∧ (data.get? "items").bind Document.entries? = some items ∧
      (items.get? "type").bind TypeClass.ofDocument? = some element ∧ parseItem ctx element items = .ok inner ∧
      shape = .array inner) ∨
    ∃ required fields, type.token = .object ∧ requiredNames? data = some required ∧
      parseFields ctx required data.definitions = .ok fields ∧
      shape = .object ctx.path (keptNames ctx required) fields := by
  cases htoken : type.token with
  | scalar kind =>
    rw [parseItem, htoken] at hparse
    exact .inl ⟨kind, rfl, (Except.ok.inj hparse).symm⟩
  | array =>
    rw [parseItem_array htoken] at hparse
    split at hparse
    · cases hparse
    · rename_i items hitems
      split at hparse
      · cases hparse
      · rename_i rawType hraw
        split at hparse
        · cases hparse
        · rename_i element helement
          obtain ⟨inner, hinner, rfl⟩ := map_eq_ok_iff.mp hparse
          exact .inr (.inl ⟨items, element, inner, rfl, hitems, by rw [hraw, Option.bind_some, helement], hinner, rfl⟩)
  | object =>
    rw [parseItem_object htoken] at hparse
    split at hparse
    · cases hparse
    · rename_i required hrequired
      rw [Entries.definitions]
      cases hproperties : data.get? "properties" with
      | none =>
        rw [hproperties] at hparse
        obtain rfl := Except.ok.inj hparse
        exact .inr (.inr ⟨required, [], rfl, hrequired, by rw [Option.bind_none, Option.getD_none, parseFields], rfl⟩)
      | some raw =>
        simp only [hproperties] at hparse
        split at hparse
        · cases hparse
        · rename_i definitions hentries
          obtain ⟨fields, hfields, rfl⟩ := map_eq_ok_iff.mp hparse
          exact .inr (.inr ⟨required, fields, rfl, hrequired, by rwa [Option.bind_some, hentries, Option.getD_some], rfl⟩)

/-- A field is read as its type says. -/
theorem exists_of_parseField (hparse : parseField ctx name data = .ok field) :
    ∃ token type, type.token = .ofText token ∧ parseItem (ctx.below name data) type data = .ok field.2 := by
  rw [parseField] at hparse
  split at hparse
  · cases hparse
  · split at hparse
    · cases hparse
    · rename_i type htype
      obtain ⟨token, htoken⟩ := TypeClass.exists_ofText htype
      obtain ⟨shape, hitem, rfl⟩ := map_eq_ok_iff.mp hparse
      exact ⟨token, type, htoken, hitem⟩

/-- A scalar whose kind has the name of the kind of texts is a text. -/
theorem eq_string_of_parseField {t : Scalar} (hparse : parseField ctx name data = .ok field) (ht : field.2 = .scalar t)
    (hname : t.kind.name = "string") : t.kind = .string := by
  obtain ⟨token, type, htoken, hitem⟩ := exists_of_parseField hparse
  obtain ⟨kind, hkind, hshape⟩ | ⟨-, -, inner, -, -, -, -, hshape⟩ | ⟨required, fields, -, -, -, hshape⟩ :=
    parseItem_cases hitem
  · obtain rfl := Shape.scalar.inj (ht.symm.trans hshape)
    exact TypeToken.eq_string_of_name_eq (htoken.symm.trans hkind) hname
  · exact nomatch ht.symm.trans hshape
  · exact nomatch ht.symm.trans hshape

theorem mem_of_field?_eq_some (hfield : field? fields name = some field) : field ∈ fields ∧ field.1.name = name := by
  induction fields with
  | nil => exact nomatch hfield
  | cons first rest ih =>
    rw [field?, Option.or_eq_some_iff] at hfield
    rcases hfield with hfield | ⟨-, hfield⟩
    · exact ⟨List.mem_cons_of_mem _ (ih hfield).1, (ih hfield).2⟩
    · split_ifs at hfield with hname
      obtain rfl := Option.some.inj hfield
      exact ⟨List.mem_cons_self, hname⟩

theorem field?_eq_none_iff : field? fields name = none ↔ name ∉ fields.map (·.1.name) := by
  induction fields with
  | nil => simp [field?]
  | cons first rest ih =>
    rw [field?, Option.or_eq_none_iff, ih, List.map_cons, List.mem_cons, not_or, and_comm]
    simp [eq_comm]

/-- Every field comes from a definition. -/
theorem exists_parseField {required : List String} {definitions : Entries}
    (hparse : parseFields ctx required definitions = .ok fields) (hfield : field ∈ fields) :
    ∃ ctx' name data, parseField ctx' name data = .ok field := by
  rw [parseFields_eq_mapM, mapM_eq_ok_iff] at hparse
  obtain ⟨entry, -, hentry⟩ := exists_mem_of_forall₂ hparse.flip hfield
  rw [parseEntry] at hentry
  split at hentry
  · cases hentry
  · split at hentry
    · cases hentry
    · exact ⟨_, _, _, hentry⟩

end Shape

namespace Graph

variable {g h : Graph} {ctx : Context} {name : String} {data : Entries} {next : Graph × PropertyId} {o : ObjectNode}

theorem held_plantProperty (g : Graph) (field : Field) (shape : Shape) :
    (g.plantProperty field shape).1.held (g.plantProperty field shape).2 =
      (g.plant shape).1.item (g.plant shape).2 := by
  rw [plantProperty, held, property_addProperty_self, item_addProperty]

theorem has_plantProperty (g : Graph) (field : Field) (shape : Shape) :
    (g.plantProperty field shape).1.Has (g.plantProperty field shape).2 := by
  refine ⟨by simp [plantProperty], ?_⟩
  rw [plantProperty, property_addProperty_self]
  cases shape with
  | scalar s => simp [plant]
  | array element => simp [plant]
  | object typeName required fields => simp [plant]

/-- A property that stands for a tree holds a scalar only if the tree is that scalar. -/
theorem Stood.eq_scalar {field : Field} {shape : Shape} {p : PropertyId} {t : Scalar} (hp : g.Stood field shape p)
    (hgh : Grown g h) (ht : h.held p = .scalar t) : shape = .scalar t := by
  obtain ⟨b, rfl, hgrown⟩ := hp
  rw [(has_plantProperty b field shape).held_eq_scalar_iff (hgrown.trans hgh).kept, held_plantProperty] at ht
  cases shape with
  | scalar s => rw [Item.scalar.inj ((item_addItem_self b _).symm.trans ht)]
  | array element => exact nomatch (item_addItem_self _ _).symm.trans ht
  | object typeName required fields => exact nomatch (item_addItem_self _ _).symm.trans ht

section Fields

variable (hparse : g.parseProperty ctx name data = .ok next)
  (ho : next.1.object? (next.1.property next.2).item = some o)

include hparse ho

/-- What an object is read from: a field for each of the definitions. -/
theorem exists_fields_of_parseProperty : ∃ ctx' required fields,
    Shape.parseFields ctx' required data.definitions = .ok fields ∧ o.properties = (g.plantFields ∅ fields).2 ∧
      Grown (g.plantFields ∅ fields).1 next.1 := by
  obtain ⟨⟨field, shape⟩, hfield, rfl⟩ := map_eq_ok_iff.mp hparse
  replace ho := (held_plantProperty g field shape).symm.trans (object?_eq_some_iff.mp ho)
  obtain ⟨-, type, -, hitem⟩ := Shape.exists_of_parseField hfield
  obtain ⟨kind, -, rfl⟩ | ⟨-, -, inner, -, -, -, -, rfl⟩ | ⟨required, fields, -, -, hfields, rfl⟩ :=
    Shape.parseItem_cases hitem
  · exact nomatch (item_addItem_self _ _).symm.trans ho
  · exact nomatch (item_addItem_self _ _).symm.trans ho
  · obtain rfl := Item.object.inj ((item_addItem_self _ _).symm.trans ho)
    exact ⟨_, required, fields, hfields, rfl, (grown_addItem _ _).trans (grown_addProperty _ _)⟩

/-- An object has properties under the names that its definition defines. -/
theorem isSome_get?_iff_of_parseProperty (key : String) :
    (o.properties.get? key).isSome ↔ key ∈ data.definedNames := by
  obtain ⟨ctx', required, fields, hfields, hproperties, -⟩ := exists_fields_of_parseProperty hparse ho
  have hnames : data.definedNames = fields.map (·.1.name) :=
    Shape.map_name_of_mapM_parseEntry (Shape.parseFields_eq_mapM _ _ _ ▸ hfields)
  have hplanted := get?_plantFields fields key g ∅
  rw [hnames, hproperties]
  cases hfield : field? fields key with
  | none =>
    rw [hfield] at hplanted
    simpa [hplanted] using Shape.field?_eq_none_iff.mp hfield
  | some field =>
    rw [hfield] at hplanted
    obtain ⟨p, hp, -⟩ := hplanted
    obtain ⟨hmem, hname⟩ := Shape.mem_of_field?_eq_some hfield
    exact iff_of_true (Option.isSome_of_eq_some hp) (List.mem_map.mpr ⟨field, hmem, hname⟩)

/-- A scalar in an object whose kind has the name of the kind of texts is a text. -/
theorem eq_string_of_parseProperty {key : String} {p : PropertyId} {t : Scalar} (hp : o.properties.get? key = some p)
    (ht : next.1.held p = .scalar t) (hname : t.kind.name = "string") : t.kind = .string := by
  obtain ⟨ctx', required, fields, hfields, hproperties, hgrown⟩ := exists_fields_of_parseProperty hparse ho
  have hplanted := get?_plantFields fields key g ∅
  rw [hproperties] at hp
  cases hfield : field? fields key with
  | none =>
    rw [hfield] at hplanted
    exact nomatch hplanted.symm.trans hp
  | some field =>
    rw [hfield] at hplanted
    obtain ⟨p', hp', hstood⟩ := hplanted
    obtain rfl := Option.some.inj (hp'.symm.trans hp)
    obtain ⟨ctx'', name', data', hread⟩ := Shape.exists_parseField hfields (Shape.mem_of_field?_eq_some hfield).1
    exact Shape.eq_string_of_parseField hread (hstood.eq_scalar hgrown ht) hname

end Fields

/-- Strictly, properties are refused by an object only if a name is taken. -/
theorem exists_of_addProperties_eq_error {i : ItemId} {added : Registry PropertyId} {e : ItemError}
    (ho : g.object? i = some o) (hadd : g.addProperties i added true = .error e) :
    ∃ name, e = .duplicatePropertyName o.typeName name := by
  rw [addProperties, object?_eq_some_iff.mp ho] at hadd
  simp only [if_true] at hadd
  split_ifs at hadd
  rcases bind_eq_error_iff.mp hadd with hregister | ⟨_, -, hlast⟩
  · obtain ⟨duplicate, -, rfl⟩ := mapError_eq_error_iff.mp hregister
    exact ⟨duplicate.name, rfl⟩
  · cases hlast

end Graph

namespace Schema

variable {g h : Graph} {s : Schema} {data body : Entries} {id parent : String} {root : PropertyId} {o : ObjectNode}

/-! ### Schemas without their parents -/

theorem bodyOf_without (id : String) (data : Entries) : bodyOf id (data.without "parent") = bodyOf id data := by
  rw [bodyOf, bodyOf, Entries.get?_without_of_ne (by decide)]

/-- **A schema is read as if it had no parent**, and then the parent is added. -/
theorem read_eq_addParent (g : Graph) (data : Entries) : read g data = (do
    let (h, s) ← read g (data.without "parent")
    let h ← addParent h s.id s.root (parentOf? data)
    return (h, { s with parent := parentOf? data })) := by
  have hbases : ∀ id, basesOf id (data.without "parent") = basesOf id data := fun id => by
    rw [basesOf, basesOf, Entries.get?_without_of_ne (by decide)]
  rw [read, read, Entries.get?_without_of_ne (by decide), Entries.get?_without_self]
  cases (data.get? "id").bind Document.text? with
  | none => rfl
  | some id =>
    simp only [hbases, bodyOf_without, bind, Except.bind]
    cases basesOf id data with
    | error e => rfl
    | ok bases =>
      simp only
      cases bodyOf id data with
      | error e => rfl
      | ok body =>
        simp only
        cases (g.parseProperty rootContext id body).mapError (SchemaError.invalid id) with
        | error e => rfl
        | ok next =>
          simp only
          split_ifs
          · rfl
          · rfl

/-- Without a parent a schema is not refused for it. -/
theorem read_without_ne_parentCollision : read g (data.without "parent") ≠ .error (.parentCollision id parent) := by
  intro hread
  rw [read, Entries.get?_without_self] at hread
  cases hid : ((data.without "parent").get? "id").bind Document.text? with
  | none =>
    rw [hid] at hread
    cases hread
  | some id =>
    simp only [hid] at hread
    rcases bind_eq_error_iff.mp hread with hbases | ⟨bases, -, hread⟩
    · rw [basesOf] at hbases
      split at hbases
      · cases hbases
      · split at hbases <;> cases hbases
    rcases bind_eq_error_iff.mp hread with hbody | ⟨body, -, hread⟩
    · rw [bodyOf] at hbody
      split at hbody <;> cases hbody
    rcases bind_eq_error_iff.mp hread with hparse | ⟨next, -, hread⟩
    · obtain ⟨_, -, heq⟩ := mapError_eq_error_iff.mp hparse
      cases heq
    split_ifs at hread <;> cases hread

/-- What a schema that is read without its parent has for a root object. -/
structure Draft (g : Graph) (data : Entries) (h : Graph) (s : Schema) (body : Entries) (o : ObjectNode) : Prop where
  id_eq : idOf? data = some s.id
  body_eq : bodyOf s.id data = .ok body
  parse_eq : g.parseProperty rootContext s.id body = .ok (h, s.root)
  object : h.object? (h.property s.root).item = some o
  root_lt : s.root.index < h.properties.size
  filed : o.properties.Filed h.propertyName
  has : ∀ p ∈ o.properties.elements, h.Has p

theorem exists_draft (hread : read g (data.without "parent") = .ok (h, s)) : ∃ body o, Draft g data h s body o := by
  obtain ⟨id, _, bases, body, next, hid, rfl, hbody, hparse, hobject, hparent, rfl⟩ := read_cases hread
  rw [idOf?, Entries.get?_without_of_ne (by decide)] at hid
  rw [bodyOf_without] at hbody
  rw [parentOf?, Entries.get?_without_self] at hparent
  obtain rfl := Except.ok.inj hparent
  obtain ⟨o, ho⟩ := Graph.exists_object?_of_isObject hobject
  obtain ⟨hplanted, hloose, -⟩ := planted_parseProperty (.refl g) hparse
  have hitem := hplanted.new_of_link hloose.new (Graph.link_property_iff.mpr rfl)
  refine ⟨body, o, hid, hbody, hparse, ho, hloose.new.2, hplanted.filed hitem ho, fun p hp => ?_⟩
  have hp := hplanted.new_of_link hitem (Graph.link_item_property_iff.mpr ⟨o, ho, hp⟩)
  exact ⟨hp.2, (hplanted.new_of_link hp (Graph.link_property_iff.mpr rfl)).2⟩

theorem Draft.lt (hdraft : Draft g data h s body o) : ∀ p ∈ o.properties.elements, p.index < h.properties.size :=
  fun p hp => (hdraft.has p hp).property_lt

/-- A parent is refused exactly if its name is taken, and for no other reason. -/
theorem addParent_eq_error_iff {e : SchemaError} (hroot : root.index < g.properties.size)
    (ho : g.object? (g.property root).item = some o) (hlt : ∀ p ∈ o.properties.elements, p.index < g.properties.size) :
    addParent g id root (some parent) = .error e ↔
      (o.properties.get? (parentProperty parent)).isSome ∧ e = .parentCollision id parent := by
  have hok : ∀ h, addParent g id root (some parent) = .ok h ↔ _ := fun h => addParent_some_eq_ok_iff hroot ho hlt
  cases hadd : addParent g id root (some parent) with
  | ok h => simp [((hok h).mp hadd).1]
  | error e' =>
    have htaken : o.properties.get? (parentProperty parent) ≠ none := fun hnone =>
      nomatch hadd.symm.trans ((hok _).mpr ⟨hnone, rfl⟩)
    have hcollision : e' = .parentCollision id parent := by
      have hgrown := g.grown_addLeaf (parentField parent) (parentScalar parent)
      have hobject : (g.addLeaf (parentField parent) (parentScalar parent)).1.object? (g.property root).item = some o :=
        (Graph.object?_congr (hgrown.item_eq _ (Graph.lt_of_object? ho))).trans ho
      rw [addParent, parseProperty_parent] at hadd
      simp only [bind, Except.bind, Except.mapError, hgrown.property_eq root hroot] at hadd
      split at hadd
      · cases hadd
      · exact (Except.error.inj hadd).symm
      · rename_i hfree hrefused
        obtain ⟨name, rfl⟩ := Graph.exists_of_addProperties_eq_error hobject hrefused
        exact absurd rfl (hfree _ _)
    rw [hcollision, Except.error.injEq, and_iff_right (Option.isSome_iff_ne_none.mpr htaken), eq_comm]

/-- **A schema is refused for its parent** exactly if it can be read without the parent and its body defines the name of
the property that would refer to the parent. -/
theorem parse_eq_parentCollision_iff :
    parse g data = .error (.parentCollision id parent) ↔ parentOf? data = some parent ∧
      ∃ h s body, parse g (data.without "parent") = .ok (h, s) ∧ s.id = id ∧ bodyOf id data = .ok body ∧
        parentProperty parent ∈ body.definedNames := by
  have hparse : ∀ data, parse g data = (read g data).map fun next => (next.1.dedup next.2.root sharingLevel, next.2) := by
    intro data
    rw [parse]
    cases read g data <;> rfl
  rw [hparse, map_eq_error_iff, read_eq_addParent, bind_eq_error_iff, or_iff_right read_without_ne_parentCollision]
  simp only [hparse, map_eq_ok_iff]
  constructor
  · rintro ⟨⟨h, s⟩, hread, hadd⟩
    rcases bind_eq_error_iff.mp hadd with hadd | ⟨_, -, hlast⟩
    · obtain ⟨body, o, hdraft⟩ := exists_draft hread
      cases hparent : parentOf? data with
      | none =>
        rw [hparent] at hadd
        cases hadd
      | some parent' =>
        rw [hparent, addParent_eq_error_iff hdraft.root_lt hdraft.object hdraft.lt] at hadd
        obtain ⟨htaken, heq⟩ := hadd
        obtain ⟨rfl, rfl⟩ := SchemaError.parentCollision.inj heq
        exact ⟨rfl, _, s, body, ⟨_, hread, rfl⟩, rfl, hdraft.body_eq,
          (Graph.isSome_get?_iff_of_parseProperty hdraft.parse_eq hdraft.object _).mp htaken⟩
    · cases hlast
  · rintro ⟨hparent, h, s, body, ⟨⟨h', s'⟩, hread, heq⟩, rfl, hbody, hdefined⟩
    obtain ⟨rfl, rfl⟩ := Prod.mk.inj heq
    obtain ⟨body', o, hdraft⟩ := exists_draft hread
    obtain rfl := Except.ok.inj (hdraft.body_eq.symm.trans hbody)
    refine ⟨(h', s'), hread, bind_eq_error_iff.mpr (.inl ?_)⟩
    rw [hparent, addParent_eq_error_iff hdraft.root_lt hdraft.object hdraft.lt]
    exact ⟨(Graph.isSome_get?_iff_of_parseProperty hdraft.parse_eq hdraft.object _).mpr hdefined, rfl⟩

end Schema

end Schemata
