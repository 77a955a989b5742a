import Schemata.Proofs.Graph.Paths
import Schemata.Proofs.Grammar.Definitions

/-!
# Defaults and required scalars

A default is handed down: an object divides it among its properties by name, an array hands it on to its element, and a
definition with a default of its own replaces it. So what a property is given can be told from the definitions alone:
it is looked up in the nearest default at or above it, under the names on the way down (`Entries.defaultAt?`).

The parsed tree has a property for each definition at a path (`Entries.at?`), and it is given that default
(`Graph.parseProperty_defaults`): it tells whether the property has one, which literal its scalar has, and, with the
names that the objects require, whether the scalar is required.
-/

namespace Schemata

open Schemata.Graph (Grown)
open Shape (Context field?)

/-! ### Definitions and values at paths -/

/-- The value found by looking names up in mappings, one after the other. -/
def Document.lookUp? (value : Document) (path : List String) : Option Document :=
  path.foldlM (fun value name => value.entries?.bind fun entries => entries.get? name) value

namespace Entries

/-- The type of a definition. -/
def type? (data : Entries) : Option TypeClass :=
  (data.get? "type").bind TypeClass.ofDocument?

/-- The definition of the items, if the definition is one of an array. -/
def items? (data : Entries) : Option Entries :=
  if data.type?.map TypeClass.token = some .array then (data.get? "items").bind Document.entries? else none

theorem items?_eq_some_iff {data items : Entries} :
    data.items? = some items ↔
      data.type?.map TypeClass.token = some .array ∧ (data.get? "items").bind Document.entries? = some items := by
  rw [items?]
  split_ifs with htype
  · simp [htype]
  · simp [htype]

theorem sizeOf_items?_lt {data items : Entries} (h : data.items? = some items) : sizeOf items < sizeOf data := by
  obtain ⟨raw, hget, hentries⟩ := Option.bind_eq_some_iff.mp (items?_eq_some_iff.mp h).2
  exact (Document.sizeOf_entries?_lt hentries).trans (sizeOf_get?_lt hget)

/-- The definition inside the arrays around it. -/
def element (data : Entries) : Entries :=
  match _h : data.items? with
  | some items => items.element
  | none => data
termination_by sizeOf data
decreasing_by exact sizeOf_items?_lt _h

theorem element_of_items? {data items : Entries} (h : data.items? = some items) : data.element = items.element := by
  rw [element]
  split
  · rename_i items' h'
    rw [Option.some.inj (h'.symm.trans h)]
  · rename_i h'
    exact nomatch h'.symm.trans h

theorem element_of_items?_eq_none {data : Entries} (h : data.items? = none) : data.element = data := by
  rw [element]
  split
  · rename_i items h'
    exact nomatch h'.symm.trans h
  · rfl

/-- The definition under a name; of two with one name the later counts. -/
def named? : Entries → String → Option Entries
  | [], _ => none
  | (key, value) :: rest, name => (named? rest name).or (if key.text? = some name then value.entries? else none)

/-- The definition of a property of the object that is defined inside of arrays. -/
def property? (data : Entries) (name : String) : Option Entries :=
  if data.element.type?.map TypeClass.token = some .object then data.element.definitions.named? name else none

/-- The definition of the property at the end of a path of names. -/
def at? (data : Entries) (path : List String) : Option Entries :=
  path.foldlM property? data

/-- The default that the definition at the end of a path has itself. -/
def ownDefault? (data : Entries) (path : List String) : Option Document :=
  (data.at? path).bind fun own => own.get? "default"

/-- The nearest default at or above the end of a path, with the path to the definition that has it. -/
def nearestDefault? (data : Entries) (path : List String) : Option (List String × Document) :=
  path.inits.reverse.findSome? fun front => (data.ownDefault? front).map fun value => (front, value)

/-- The default that the property at the end of a path is given: what the nearest default has for it. -/
def defaultAt? (data : Entries) (path : List String) : Option Document :=
  (data.nearestDefault? path).bind fun (front, value) => value.lookUp? (path.drop front.length)

/-- The names that a definition of an object requires. -/
def requiredNames (data : Entries) : List String :=
  ((data.get? "required").bind Document.textList?).getD []

/-- The object with the property at the end of a path requires it. -/
def Requires (data : Entries) (path : List String) : Prop :=
  ∃ front name holder, path = front ++ [name] ∧ data.at? front = some holder ∧ name ∈ holder.element.requiredNames

variable {data : Entries} {path : List String} {name : String}

theorem at?_concat (data : Entries) (path : List String) (name : String) :
    data.at? (path ++ [name]) = (data.at? path).bind fun own => own.property? name := by
  rw [at?, List.foldlM_append]
  cases h : List.foldlM property? data path with
  | none => rw [at?, h]; rfl
  | some own => rw [at?, h]; simp

theorem requires_concat_iff {holder : Entries} (hholder : data.at? path = some holder) :
    data.Requires (path ++ [name]) ↔ name ∈ holder.element.requiredNames := by
  constructor
  · rintro ⟨front, name', holder', hsplit, hholder', hname⟩
    obtain ⟨rfl, hlast⟩ := List.append_inj' hsplit rfl
    obtain rfl := List.singleton_inj.mp hlast
    obtain rfl := Option.some.inj (hholder.symm.trans hholder')
    exact hname
  · exact fun hname => ⟨path, name, holder, rfl, hholder, hname⟩

theorem not_requires_nil : ¬ data.Requires [] := by
  rintro ⟨front, name, -, hsplit, -⟩
  simp at hsplit

/-! ### Defaults by one more name -/

theorem nearestDefault?_concat (data : Entries) (path : List String) (name : String) :
    data.nearestDefault? (path ++ [name]) =
      ((data.ownDefault? (path ++ [name])).map fun value => (path ++ [name], value)).or (data.nearestDefault? path) := by
  rw [nearestDefault?, List.inits_append]
  simp only [List.inits, List.tail_cons, List.map_cons, List.map_nil, List.reverse_append, List.reverse_cons,
    List.reverse_nil, List.nil_append, List.singleton_append, List.findSome?_cons]
  cases data.ownDefault? (path ++ [name]) <;> rfl

theorem prefix_of_nearestDefault? {front : List String} {value : Document}
    (h : data.nearestDefault? path = some (front, value)) : front <+: path := by
  obtain ⟨front', hmem, hvalue⟩ := List.exists_of_findSome?_eq_some h
  obtain ⟨_, -, heq⟩ := Option.map_eq_some_iff.mp hvalue
  rw [← (Prod.mk.inj heq).1]
  exact (List.mem_inits _ _).mp (List.mem_reverse.mp hmem)

theorem defaultAt?_nil (data : Entries) : data.defaultAt? [] = data.get? "default" := by
  have hown : data.ownDefault? [] = data.get? "default" := rfl
  cases h : data.get? "default" <;> simp [defaultAt?, nearestDefault?, hown, h, Document.lookUp?]

/-- A definition has its own default, or what the default of the definition above has for it. -/
theorem defaultAt?_concat (data : Entries) (path : List String) (name : String) :
    data.defaultAt? (path ++ [name]) = (data.ownDefault? (path ++ [name])).or
      ((data.defaultAt? path).bind fun value => value.entries?.bind fun entries => entries.get? name) := by
  rw [defaultAt?, nearestDefault?_concat]
  cases hown : data.ownDefault? (path ++ [name]) with
  | some value => simp [Document.lookUp?]
  | none =>
    rw [Option.map_none, Option.none_or, Option.none_or, defaultAt?]
    cases hnearest : data.nearestDefault? path with
    | none => rfl
    | some found =>
      obtain ⟨front, value⟩ := found
      have hle := (prefix_of_nearestDefault? hnearest).length_le
      simp only [Option.bind_some, List.drop_append_of_le_length hle, Document.lookUp?, List.foldlM_append]
      cases List.foldlM (fun value name => value.entries?.bind fun entries => entries.get? name) value
        (path.drop front.length) <;> simp

end Entries

/-! ### Reading inside of arrays -/

variable {data below : Entries} {path : List String} {name : String} {ctx : Context} {missing : String → ItemError}

namespace Shape

variable {shape : Shape} {field : Field × Shape} {fields : List (Field × Shape)}

/-- The tree inside the arrays around it. -/
def element : Shape → Shape
  | .array shape => shape.element
  | shape => shape

/-- A tree has been read from a definition that is not one of an array. -/
inductive ReadFrom (ctx : Context) (data : Entries) : Shape → Prop where
  /-- A scalar has what its context gives it. -/
  | scalar {kind : ScalarKind} {nullable : Bool} (htype : data.type? = some ⟨.scalar kind, nullable⟩) :
    ReadFrom ctx data (.scalar (scalarOf ctx kind nullable data))
  /-- An object has a field for each definition. -/
  | object {nullable : Bool} {required : List String} {fields : List (Field × Shape)}
    (htype : data.type? = some ⟨.object, nullable⟩) (hrequired : requiredNames? data = some required)
    (hfields : parseFields ctx required data.definitions = .ok fields) :
    ReadFrom ctx data (.object ctx.path (keptNames ctx required) fields)

theorem default_scalarOf (kind : ScalarKind) (nullable : Bool) (ctx : Context) (data : Entries) :
    (scalarOf ctx kind nullable data).default = ctx.defaults.bind Literal.ofDocument? :=
  rfl

/-- A scalar is required if its context requires it, or if there is a default, even if none that it can take. -/
theorem required_scalarOf_iff {kind : ScalarKind} {nullable : Bool} :
    (scalarOf ctx kind nullable data).required = true ↔ ctx.required = true ∨ data.hasKey "default" = true ∨
      (scalarOf ctx kind nullable data).default.isSome = true := by
  simp only [scalarOf, Bool.or_eq_true, or_assoc]

theorem required_below_iff :
    (ctx.below name data).required = true ↔ ctx.required = true ∨ Naming.goName name "" = "Id" := by
  rw [Context.below, Bool.or_eq_true, beq_iff_eq]

theorem mem_of_requiredNames? {required : List String} (h : requiredNames? data = some required) :
    name ∈ required ↔ name ∈ data.requiredNames := by
  rw [requiredNames?] at h
  rw [Entries.requiredNames]
  cases hget : data.get? "required" with
  | none =>
    rw [hget] at h
    simp [← Option.some.inj h]
  | some raw =>
    simp only [hget, Option.map_eq_some_iff] at h
    obtain ⟨names, hnames, rfl⟩ := h
    rw [mem_ascending, Option.bind_some, hnames, Option.getD_some]

/-- What is inside of arrays is read in the context of the arrays. -/
theorem readFrom_element {type : TypeClass} (htype : data.type? = some type)
    (hparse : parseItem ctx type data = .ok shape) : ReadFrom ctx data.element shape.element := by
  induction data using Entries.element.induct generalizing type shape with
  | case1 data items hitems ih =>
    obtain ⟨htoken, hget⟩ := Entries.items?_eq_some_iff.mp hitems
    rw [htype, Option.map_some, Option.some.injEq] at htoken
    obtain ⟨kind, hkind, -⟩ | ⟨items', element, inner, -, hget', helement, hinner, rfl⟩ | ⟨required, fields, hobject, -⟩ :=
      parseItem_cases hparse
    · exact nomatch htoken.symm.trans hkind
    · obtain rfl := Option.some.inj (hget.symm.trans hget')
      rw [Entries.element_of_items? hitems]
      have hbelow := ih helement hinner
      exact hbelow
    · exact nomatch htoken.symm.trans hobject
  | case2 data hitems =>
    rw [Entries.element_of_items?_eq_none hitems]
    obtain ⟨token, nullable⟩ := type
    obtain ⟨kind, rfl, rfl⟩ | ⟨items, -, -, rfl, hget, -⟩ | ⟨required, fields, rfl, hrequired, hfields, rfl⟩ :=
      parseItem_cases hparse
    · exact .scalar htype
    · have hsome : data.items? = some items := Entries.items?_eq_some_iff.mpr ⟨by rw [htype, Option.map_some], hget⟩
      exact nomatch hitems.symm.trans hsome
    · exact .object htype hrequired hfields

/-- How a property is read: its type is looked up, then its item is read below it. -/
theorem readFrom_of_parseField (hparse : parseField ctx name data = .ok field) :
    field.1 = fieldOf ctx (ctx.below name data) name ∧ ReadFrom (ctx.below name data) data.element field.2.element := by
  rw [parseField] at hparse
  split at hparse
  · cases hparse
  · rename_i raw hraw
    split at hparse
    · cases hparse
    · rename_i type htype
      obtain ⟨shape, hshape, rfl⟩ := map_eq_ok_iff.mp hparse
      exact ⟨rfl, readFrom_element (by rw [Entries.type?, hraw, Option.bind_some, htype]) hshape⟩

/-- The field of a name is read from the definition of that name. -/
theorem parseField_of_field? {required : List String} {definitions : Entries}
    (hparse : parseFields ctx required definitions = .ok fields) (name : String) :
    match definitions.named? name with
    | some below => ∃ field, field? fields name = some field ∧
        parseField (ctx.property required name) name below = .ok field
    | none => field? fields name = none := by
  rw [parseFields_eq_mapM, mapM_eq_ok_iff] at hparse
  induction hparse with
  | nil => rfl
  | @cons entry field rest fields hentry _ ih =>
    obtain ⟨key, value⟩ := entry
    rw [Entries.named?, field?]
    cases hrest : Entries.named? rest name with
    | some below =>
      rw [hrest] at ih
      obtain ⟨found, hfound, hread⟩ := ih
      exact ⟨found, by rw [hfound, Option.some_or], hread⟩
    | none =>
      rw [hrest] at ih
      rw [parseEntry] at hentry
      cases hkey : key.text? with
      | none =>
        simp only [hkey] at hentry
        cases hentry
      | some key =>
        simp only [hkey] at hentry
        cases hvalue : value.entries? with
        | none =>
          simp only [hvalue] at hentry
          cases hentry
        | some below =>
          simp only [hvalue] at hentry
          have hname : field.1.name = key := (named_of_parseField hentry).1
          rw [ih, Option.none_or, Option.none_or, hname]
          by_cases heq : key = name
          · subst heq
            simpa using hentry
          · simp [heq]

end Shape

/-! ### Planted trees inside of arrays -/

namespace Graph

variable {g h : Graph} {shape : Shape} {i j : ItemId} {p q root : PropertyId}

/-- An item is what a tree that is not an array is planted as. -/
inductive PlantedAs (h : Graph) (j : ItemId) : Shape → Prop where
  /-- A scalar. -/
  | scalar {s : Scalar} (hj : h.item j = .scalar s) : PlantedAs h j (.scalar s)
  /-- An object, with its properties planted before. -/
  | object {typeName : String} {required : List String} {fields : List (Field × Shape)} (b : Graph)
    (hj : h.item j = .object { typeName, properties := (b.plantFields ∅ fields).2, required })
    (hgrown : Grown (b.plantFields ∅ fields).1 h) : PlantedAs h j (.object typeName required fields)

theorem PlantedAs.not_array (h' : PlantedAs h j shape) (e : ItemId) : h.item j ≠ .array e := by
  cases h' with
  | scalar hj => exact fun he => nomatch hj.symm.trans he
  | object b hj _ => exact fun he => nomatch hj.symm.trans he

theorem item_of_grown_addItem {x : Item} (hgh : Grown (g.addItem x).1 h) : h.item (g.addItem x).2 = x := by
  rw [hgh.item_eq _ (by simp), item_addItem_self]

/-- Arrays are planted around what is inside of them. -/
theorem exists_plantedAs (shape : Shape) : ∀ {g h : Graph}, Grown (g.plant shape).1 h →
    ∃ j, h.Encloses (g.plant shape).2 j ∧ h.PlantedAs j shape.element := by
  induction shape using Shape.element.induct with
  | case1 inner ih =>
    intro g h hgh
    have hlast : h.item (g.plant (.array inner)).2 = .array (g.plant inner).2 := item_of_grown_addItem hgh
    obtain ⟨j, henc, hj⟩ := ih ((grown_addItem _ _).trans hgh)
    exact ⟨j, .array hlast henc, hj⟩
  | case2 shape hnot =>
    intro g h hgh
    refine ⟨_, .refl _, ?_⟩
    cases shape with
    | array inner => exact absurd rfl (hnot inner)
    | scalar s => exact .scalar (item_of_grown_addItem hgh)
    | object typeName required fields =>
      exact .object g (item_of_grown_addItem hgh) ((grown_addItem _ _).trans hgh)

/-- What a property holds inside of arrays. -/
theorem Stood.innermost {field : Field} (hp : h.Stood field shape p) (hh : h.Sound) :
    (h.property p).toField = field ∧ h.Present (.property p) ∧
      h.PlantedAs (h.innermost (h.property p).item) shape.element := by
  obtain ⟨g, rfl, hgrown⟩ := hp
  have hlt := (has_plantProperty g field shape).property_lt
  have hproperty : h.property (g.plantProperty field shape).2 = { toField := field, item := (g.plant shape).2 } := by
    rw [hgrown.property_eq _ hlt, plantProperty, property_addProperty_self]
  have hpresent : h.Present (.property (g.plantProperty field shape).2) := hlt.trans_le hgrown.properties_le
  obtain ⟨j, henc, hj⟩ := exists_plantedAs shape ((grown_addProperty _ _).trans hgrown)
  obtain ⟨hinside, hnot⟩ := hh.encloses_innermost (hh.present_held hpresent)
  rw [hproperty] at hinside hnot ⊢
  rw [hinside.eq_of_not_array hnot henc hj.not_array]
  exact ⟨rfl, hpresent, hj⟩

/-- A property has been read from a definition in a context. -/
def Stands (h : Graph) (ctx : Context) (name : String) (data : Entries) (p : PropertyId) : Prop :=
  ∃ field shape, Shape.parseField ctx name data = .ok (field, shape) ∧ h.Stood field shape p

/-- What a property that has been read is, and what it holds inside of arrays. -/
theorem Stands.exists_shape (hp : h.Stands ctx name data p) (hh : h.Sound) :
    (h.property p).toField = Shape.fieldOf ctx (ctx.below name data) name ∧ h.Present (.property p) ∧
      ∃ shape, Shape.ReadFrom (ctx.below name data) data.element shape ∧
        h.PlantedAs (h.innermost (h.property p).item) shape := by
  obtain ⟨field, shape, hparse, hstood⟩ := hp
  obtain ⟨hfield, hread⟩ := Shape.readFrom_of_parseField hparse
  obtain ⟨htoField, hpresent, hplanted⟩ := hstood.innermost hh
  exact ⟨htoField.trans hfield, hpresent, shape.element, hread, hplanted⟩

/-- The names below a property that has been read are those of the definitions. -/
theorem Stands.child? (hp : h.Stands ctx name data p) (hh : h.Sound) (key : String) :
    match data.property? key with
    | some below => ∃ q required, h.child? p key = some q ∧ (key ∈ required ↔ key ∈ data.element.requiredNames) ∧
        h.Stands ((ctx.below name data).property required key) key below q
    | none => h.child? p key = none := by
  obtain ⟨-, -, shape, hread, hplanted⟩ := hp.exists_shape hh
  rw [Entries.property?, Graph.child?, object?]
  cases hread with
  | scalar htype =>
    cases hplanted with
    | scalar hitem => rw [htype, hitem]; simp
  | @object nullable required fields htype hrequired hfields =>
    cases hplanted with
    | object b hitem hgrown =>
      have hnamed := Shape.parseField_of_field? hfields key
      have hfiled := get?_plantFields fields key b ∅
      simp only [htype, Option.map_some, if_true, hitem, Option.bind_some]
      cases hbelow : data.element.definitions.named? key with
      | none =>
        rw [hbelow] at hnamed
        rw [hnamed] at hfiled
        exact hfiled
      | some below =>
        rw [hbelow] at hnamed
        obtain ⟨⟨field, shape⟩, hfield, hparse⟩ := hnamed
        rw [hfield] at hfiled
        obtain ⟨q, hq, g, rfl, hgrown'⟩ := hfiled
        exact ⟨_, required, hq, Shape.mem_of_requiredNames? hrequired, field, shape, hparse, g, rfl,
          hgrown'.trans hgrown⟩

/-! ### Contexts along paths -/

/-- A path leads to a property exactly if there is a definition at its end. The property was read from that definition in
a context with the default and the requirement that the definitions on the way give. -/
theorem Stands.propertyAt? (hroot : h.Stands ctx name data root) (hh : h.Sound) (hctx : ctx.defaults = none)
    (path : List String) :
    match data.at? path with
    | some own => ∃ p ctx', h.propertyAt? root path = some p ∧ h.Stands ctx' (path.getLastD name) own p ∧
        (ctx'.below (path.getLastD name) own).defaults = data.defaultAt? path ∧
        (ctx'.required = true ↔ path = [] ∧ ctx.required = true ∨ data.Requires path)
    | none => h.propertyAt? root path = none := by
  induction path using List.reverseRecOn with
  | nil =>
    refine ⟨root, ctx, rfl, hroot, ?_, ?_⟩
    · rw [Shape.Context.below, hctx, Option.or_none, Entries.defaultAt?_nil]
    · simp [Entries.not_requires_nil]
  | append_singleton path key ih =>
    have hconcat : h.propertyAt? root (path ++ [key]) = (h.propertyAt? root path).bind fun p => h.child? p key := by
      refine Option.ext fun q => ?_
      rw [propertyAt?_concat, Option.bind_eq_some_iff]
    rw [Entries.at?_concat, hconcat]
    cases hown : data.at? path with
    | none =>
      rw [hown] at ih
      rw [ih]
      rfl
    | some own =>
      rw [hown] at ih
      obtain ⟨p, ctx', hp, hstands, hdefaults, -⟩ := ih
      have hchild := hstands.child? hh key
      rw [Option.bind_some, hp, Option.bind_some]
      cases hbelow : own.property? key with
      | none =>
        rw [hbelow] at hchild
        exact hchild
      | some below =>
        rw [hbelow] at hchild
        obtain ⟨q, required, hq, hrequired, hstands'⟩ := hchild
        have hat : data.at? (path ++ [key]) = some below := by rw [Entries.at?_concat, hown, Option.bind_some, hbelow]
        refine ⟨q, _, hq, by rw [List.getLastD_concat]; exact hstands', ?_, ?_⟩
        · rw [Entries.defaultAt?_concat, Entries.ownDefault?, hat, ← hdefaults]
          rfl
        · rw [Entries.requires_concat_iff hown, ← hrequired, Shape.Context.property]
          simp

/-- **What a parsed definition is given** is what its definitions say. Every property is at the end of a path, and there is
a property for each definition at a path, under its name. It has a default exactly if the nearest default at or above it
has a value for it that is not the null, and a scalar inside of arrays has the literal of that value. Such a scalar is
required if its object requires it (at the root: if the context does), if it is called `Id` in Go, if its own definition
has a default, or if it has a literal. -/
theorem parseProperty_defaults (name : String) (hg : g.Sound) (hctx : ctx.defaults = none) (hdata : data.WellFormed) :
    ∃ h root, g.parseProperty ctx name data = .ok (h, root) ∧
      (∀ p, h.Leads (.property root) (.property p) → ∃ path, h.propertyAt? root path = some p) ∧ ∀ path,
      ((h.propertyAt? root path).isSome ↔ (data.at? path).isSome) ∧
      ∀ p own, h.propertyAt? root path = some p → data.at? path = some own →
        h.propertyName p = path.getLastD name ∧
        (h.property p).hasDefault = (data.defaultAt? path).any (fun value => !value.isNull) ∧
        ∀ t, h.itemAt? root path = some (.scalar t) →
          t.default = (data.defaultAt? path).bind Literal.ofDocument? ∧
          (t.required = true ↔ path = [] ∧ ctx.required = true ∨ data.Requires path ∨
            Naming.goName (path.getLastD name) "" = "Id" ∨ own.element.hasKey "default" = true ∨
            t.default.isSome = true) := by
  obtain ⟨⟨h, root⟩, hparse⟩ := exists_parseProperty_iff.mpr hdata
  have hh : h.Sound := (Schema.planted_parseProperty (.refl g) hparse).1.sound hg
  have hroot : h.Stands ctx name data root := by
    obtain ⟨⟨field, shape⟩, hfield, heq⟩ := map_eq_ok_iff.mp hparse
    obtain ⟨rfl, rfl⟩ := Prod.mk.inj heq
    exact ⟨field, shape, hfield, g, rfl, .refl _⟩
  obtain ⟨-, hpresent, -⟩ := hroot.exists_shape hh
  refine ⟨h, root, hparse, fun p hp => hh.exists_path hpresent hp, fun path => ?_⟩
  have hpath := hroot.propertyAt? hh hctx path
  cases hown : data.at? path with
  | none =>
    rw [hown] at hpath
    simp [hpath]
  | some own =>
    rw [hown] at hpath
    obtain ⟨p, ctx', hp, hstands, hdefaults, hrequired⟩ := hpath
    refine ⟨by simp [hp], fun q own' hq hown' => ?_⟩
    obtain rfl := Option.some.inj (hp.symm.trans hq)
    obtain rfl := Option.some.inj hown'
    obtain ⟨hfield, -, shape, hread, hplanted⟩ := hstands.exists_shape hh
    refine ⟨?_, ?_, fun t ht => ?_⟩
    · rw [propertyName, hfield, Shape.fieldOf]
    · rw [hfield, Shape.fieldOf, hdefaults]
    · obtain ⟨p', hp', hitem⟩ := itemAt?_eq_some_iff.mp ht
      obtain rfl := Option.some.inj (hp.symm.trans hp')
      cases hread with
      | object htype hrequired' hfields =>
        cases hplanted with
        | object b hobject => cases hitem.symm.trans hobject
      | @scalar kind nullable htype =>
        cases hplanted with
        | scalar hscalar =>
          obtain rfl := Item.scalar.inj (hitem.symm.trans hscalar)
          have hdefault := Shape.default_scalarOf kind nullable (ctx'.below (path.getLastD name) own) own.element
          rw [hdefaults] at hdefault
          refine ⟨hdefault, ?_⟩
          rw [Shape.required_scalarOf_iff, Shape.required_below_iff, hrequired, or_assoc, or_assoc]

/-- Settings in which a default is divided among properties, and the null shadows a part of it. -/
def settings : Entries :=
  [(.text "type", .text "object"), (.text "properties", .mapping
    [(.text "server", .mapping
      [(.text "type", .text "object"),
       (.text "default", .mapping [(.text "host", .text "localhost"), (.text "port", .int 80)]),
       (.text "properties", .mapping
         [(.text "host", .mapping (Schema.definition "string")),
          (.text "port", .mapping [(.text "type", .text "integer"), (.text "default", .null)])])])])]

/-- The settings as they are read. -/
def settingsRead : Graph × PropertyId :=
  (parseProperty {} {} "settings" settings).toOption.getD default

/-- The host is given a part of the default of the server. The port is given the null, which is no default, but it is
required nevertheless. -/
theorem settings_divide_default :
    (∃ p, settingsRead.1.propertyAt? settingsRead.2 ["server", "host"] = some p ∧
        (settingsRead.1.property p).hasDefault = true) ∧
      (∃ p, settingsRead.1.propertyAt? settingsRead.2 ["server", "port"] = some p ∧
        (settingsRead.1.property p).hasDefault = false) ∧
      (∃ s, settingsRead.1.itemAt? settingsRead.2 ["server", "host"] = some (.scalar s) ∧
        s.default = some (.string "localhost")) ∧
      ∃ t, settingsRead.1.itemAt? settingsRead.2 ["server", "port"] = some (.scalar t) ∧ t.required = true := by
  have hread : parseProperty {} {} "settings" settings = .ok settingsRead := eq_ok_of_isSome_toOption (by decide +kernel)
  have hhostItem : settingsRead.1.itemAt? settingsRead.2 ["server", "host"] = some (.scalar
      { kind := .string, required := true, default := some (.string "localhost") }) := by decide +kernel
  have hportItem : settingsRead.1.itemAt? settingsRead.2 ["server", "port"] = some (.scalar
      { kind := .int, required := true }) := by decide +kernel
  obtain ⟨h, root, hparse, -, hpaths⟩ :=
    parseProperty_defaults "settings" sound_empty (rfl : ({} : Context).defaults = none)
      (exists_parseProperty_iff.mp ⟨_, hread⟩)
  rw [Except.ok.inj (hread.symm.trans hparse)] at hhostItem hportItem ⊢
  obtain ⟨hhost, hhosts⟩ := hpaths ["server", "host"]
  obtain ⟨hport, hports⟩ := hpaths ["server", "port"]
  obtain ⟨host, hhost⟩ := Option.isSome_iff_exists.mp (hhost.mpr (by decide +kernel))
  obtain ⟨port, hport⟩ := Option.isSome_iff_exists.mp (hport.mpr (by decide +kernel))
  obtain ⟨hostOwn, hhostOwn⟩ := Option.isSome_iff_exists.mp
    (show (settings.at? ["server", "host"]).isSome = true by decide +kernel)
  obtain ⟨portOwn, hportOwn⟩ := Option.isSome_iff_exists.mp
    (show (settings.at? ["server", "port"]).isSome = true by decide +kernel)
  obtain ⟨-, hhostDefault, hhostScalar⟩ := hhosts host hostOwn hhost hhostOwn
  obtain ⟨-, hportDefault, hportScalar⟩ := hports port portOwn hport hportOwn
  have hown : (settings.at? ["server", "port"]).any (fun own => own.element.hasKey "default") = true := by decide +kernel
  replace hown : portOwn.element.hasKey "default" = true := by rwa [hportOwn, Option.any_some] at hown
  exact ⟨⟨host, hhost, hhostDefault.trans (by decide +kernel)⟩, ⟨port, hport, hportDefault.trans (by decide +kernel)⟩,
    ⟨_, hhostItem, (hhostScalar _ hhostItem).1.trans (by decide +kernel)⟩,
    _, hportItem, (hportScalar _ hportItem).2.mpr (.inr (.inr (.inr (.inl hown))))⟩

end Graph

end Schemata
