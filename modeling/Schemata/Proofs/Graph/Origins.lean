import Schemata.Proofs.Graph.Paths

/-!
# Where nodes come from

Every node that is planted for a definition was *read in* a context (`Graph.ReadIn`): the flags of a scalar, the kept
names of an object and the field of a property are those that the context gives. Arrays pass their context on, an object
makes one for each of its properties, and a property makes one for its item.

So the context of a property can be followed along a path, one level down for each name (`ReadIn.propertyAt?`).
-/

namespace Schemata

theorem Document.isNull_of_ofDocument? {d : Document} {l : Literal} (hd : Literal.ofDocument? d = some l) :
    d.isNull = false := by
  induction d using Literal.ofDocument?.induct with
  | case5 tag value ih =>
    rw [Literal.ofDocument?] at hd
    have hvalue := ih hd
    rw [isNull] at hvalue ⊢
    exact hvalue
  | case6 => cases hd
  | _ => rfl

namespace Shape

/-- A scalar with a default literal was given a default that is not the null. -/
theorem hasDefault_fieldOf {ctx child : Context} {kind : ScalarKind} {nullable : Bool} {data : Entries} {name : String}
    (hdefault : (scalarOf child kind nullable data).default.isSome = true) :
    (fieldOf ctx child name).hasDefault = true := by
  obtain ⟨literal, hliteral⟩ := Option.isSome_iff_exists.mp hdefault
  obtain ⟨value, hvalue, hliteral⟩ := Option.bind_eq_some_iff.mp hliteral
  rw [fieldOf, hvalue, Option.any_some, Document.isNull_of_ofDocument? hliteral]
  rfl

end Shape

namespace Graph

open Shape (Context)

variable {g h : Graph} {ctx : Context} {x : Node} {i k : ItemId} {p q : PropertyId} {path : List String}
  {name : String}

/-! ### Contexts of nodes -/

/-- A node was read in a context. -/
inductive ReadIn (g : Graph) : Context → Node → Prop where
  /-- The context decides on the flags and the default of a scalar. -/
  | scalar {ctx : Context} {i : ItemId} (kind : ScalarKind) (nullable : Bool) (data : Entries)
      (hlt : i.index < g.items.size) (hi : g.item i = .scalar (Shape.scalarOf ctx kind nullable data)) :
      ReadIn g ctx (.item i)
  /-- The element of an array is read in the context of the array. -/
  | array {ctx : Context} {i e : ItemId} (hi : g.item i = .array e) (he : ReadIn g ctx (.item e)) :
      ReadIn g ctx (.item i)
  /-- An object hands contexts down to its properties. -/
  | object {ctx : Context} {i : ItemId} {o : ObjectNode} (required : List String) (hi : g.object? i = some o)
      (hrequired : o.required = Shape.keptNames ctx required)
      (hproperties : ∀ p ∈ o.properties.elements, ReadIn g (ctx.property required (g.propertyName p)) (.property p)) :
      ReadIn g ctx (.item i)
  /-- A property hands a context down to its item. -/
  | property {ctx : Context} {p : PropertyId} (data : Entries) (hlt : p.index < g.properties.size)
      (hfield : (g.property p).toField = Shape.fieldOf ctx (ctx.below (g.propertyName p) data) (g.propertyName p))
      (hitem : ReadIn g (ctx.below (g.propertyName p) data) (.item (g.property p).item)) : ReadIn g ctx (.property p)

namespace ReadIn

theorem present (hx : g.ReadIn ctx x) : g.Present x := by
  cases hx with
  | scalar _ _ _ hlt _ => exact hlt
  | array hi _ =>
    by_contra hlt
    rw [item_of_size_le (Nat.le_of_not_lt hlt)] at hi
    exact nomatch hi
  | object _ hi _ _ => exact lt_of_object? hi
  | property _ hlt _ _ => exact hlt

theorem grown (hx : g.ReadIn ctx x) (hgh : Grown g h) : h.ReadIn ctx x := by
  induction hx with
  | scalar kind nullable data hlt hi =>
    exact .scalar kind nullable data (hlt.trans_le hgh.items_le) ((hgh.item_eq _ hlt).trans hi)
  | array hi he ih =>
    have hlt := (ReadIn.array hi he).present
    exact .array ((hgh.item_eq _ hlt).trans hi) ih
  | object required hi hrequired hproperties ih =>
    refine .object required (object?_congr (hgh.item_eq _ (lt_of_object? hi)) ▸ hi) hrequired fun p hp => ?_
    have hname : h.propertyName p = g.propertyName p := by
      rw [propertyName, propertyName, hgh.property_eq p (hproperties p hp).present]
    rw [hname]
    exact ih p hp
  | @property ctx p data hlt hfield hitem ih =>
    have hproperty := hgh.property_eq p hlt
    refine .property data (hlt.trans_le hgh.properties_le) ?_ ?_
    · rw [propertyName, hproperty]
      exact hfield
    · rw [propertyName, hproperty]
      exact ih

theorem encloses (hi : g.ReadIn ctx (.item i)) (henc : g.Encloses i k) : g.ReadIn ctx (.item k) := by
  induction henc with
  | refl i => exact hi
  | array harray _ ih =>
    cases hi with
    | scalar _ _ _ _ hi => exact nomatch hi.symm.trans harray
    | array hi he =>
      obtain rfl := Item.array.inj (hi.symm.trans harray)
      exact ih he
    | object _ hi _ _ => exact nomatch (object?_eq_some_iff.mp hi).symm.trans harray

theorem exists_scalarOf {s : Scalar} (hi : g.ReadIn ctx (.item i)) (hs : g.item i = .scalar s) :
    ∃ kind nullable data, s = Shape.scalarOf ctx kind nullable data := by
  cases hi with
  | scalar kind nullable data _ hi => exact ⟨kind, nullable, data, Item.scalar.inj (hs.symm.trans hi)⟩
  | array hi _ => exact nomatch hs.symm.trans hi
  | object _ hi _ _ => exact nomatch hs.symm.trans (object?_eq_some_iff.mp hi)

theorem exists_required {o : ObjectNode} (hi : g.ReadIn ctx (.item i)) (ho : g.object? i = some o) :
    ∃ required, o.required = Shape.keptNames ctx required ∧
      ∀ p ∈ o.properties.elements, g.ReadIn (ctx.property required (g.propertyName p)) (.property p) := by
  cases hi with
  | scalar _ _ _ _ hi => exact nomatch hi.symm.trans (object?_eq_some_iff.mp ho)
  | array hi _ => exact nomatch hi.symm.trans (object?_eq_some_iff.mp ho)
  | object required hi hrequired hproperties =>
    obtain rfl := Option.some.inj (hi.symm.trans ho)
    exact ⟨required, hrequired, hproperties⟩

theorem exists_below (hp : g.ReadIn ctx (.property p)) :
    ∃ data, (g.property p).toField = Shape.fieldOf ctx (ctx.below (g.propertyName p) data) (g.propertyName p) ∧
      g.ReadIn (ctx.below (g.propertyName p) data) (.item (g.property p).item) := by
  cases hp with
  | property data _ hfield hitem => exact ⟨data, hfield, hitem⟩

theorem placement_eq (hp : g.ReadIn ctx (.property p)) : (g.property p).placement = .ofLevel ctx.level := by
  obtain ⟨data, hfield, -⟩ := hp.exists_below
  exact congrArg Field.placement hfield

/-- A property with a scalar that has a default literal was given a default. -/
theorem hasDefault_eq_true {s : Scalar} (hp : g.ReadIn ctx (.property p)) (hs : g.held p = .scalar s)
    (hdefault : s.default.isSome = true) : (g.property p).hasDefault = true := by
  obtain ⟨data, hfield, hitem⟩ := hp.exists_below
  obtain ⟨kind, nullable, data', rfl⟩ := hitem.exists_scalarOf hs
  exact (congrArg Field.hasDefault hfield).trans (Shape.hasDefault_fieldOf hdefault)

/-! ### Contexts along paths -/

theorem child? (hg : g.Sound) (hp : g.ReadIn ctx (.property p)) (hq : g.child? p name = some q) :
    ∃ ctx', g.ReadIn ctx' (.property q) ∧ ctx'.level = ctx.level + 1 := by
  obtain ⟨o, ho, hq⟩ := child?_eq_some_iff.mp hq
  obtain ⟨data, -, hitem⟩ := hp.exists_below
  obtain ⟨required, -, hproperties⟩ := (hitem.encloses (hg.encloses_innermost hitem.present).1).exists_required ho
  exact ⟨_, hproperties q (Registry.mem_elements_of_get? hq), rfl⟩

/-- **Each name of a path leads one level down.** -/
theorem propertyAt? (hg : g.Sound) (hp : g.ReadIn ctx (.property p)) (hq : g.propertyAt? p path = some q) :
    ∃ ctx', g.ReadIn ctx' (.property q) ∧ ctx'.level = ctx.level + path.length := by
  induction path using List.reverseRecOn generalizing q with
  | nil =>
    obtain rfl := Option.some.inj hq
    exact ⟨ctx, hp, rfl⟩
  | append_singleton path name ih =>
    obtain ⟨r, hr, hq⟩ := propertyAt?_concat.mp hq
    obtain ⟨above, habove, hlevel⟩ := ih hr
    obtain ⟨ctx', hctx', hlevel'⟩ := habove.child? hg hq
    exact ⟨ctx', hctx', by simp only [List.length_append, List.length_singleton]; omega⟩

end ReadIn

/-! ### Planting what was read -/

mutual

theorem grown_plant (g : Graph) (shape : Shape) : Grown g (g.plant shape).1 := by
  cases shape with
  | scalar s => exact grown_addItem g _
  | array element => exact (grown_plant g element).trans (grown_addItem _ _)
  | object typeName required fields => exact (grown_plantFields g ∅ fields).trans (grown_addItem _ _)

theorem grown_plantFields (g : Graph) (filed : Registry PropertyId) (fields : List (Field × Shape)) :
    Grown g (g.plantFields filed fields).1 := by
  match fields with
  | [] => exact .refl g
  | (field, shape) :: rest =>
    exact ((grown_plant g shape).trans (grown_addProperty _ _)).trans (grown_plantFields _ _ rest)

end

theorem propertyName_plantProperty (g : Graph) (field : Field) (shape : Shape) :
    (g.plantProperty field shape).1.propertyName (g.plantProperty field shape).2 = field.name :=
  congrArg (fun x : Property => x.name) (property_addProperty_self _ _)

/-- A property has been planted over an item that was read in the context that it hands down. -/
theorem readIn_addProperty {data : Entries} (hi : g.ReadIn (ctx.below name data) (.item i)) :
    (g.addProperty { toField := Shape.fieldOf ctx (ctx.below name data) name, item := i }).1.ReadIn ctx
      (.property (g.addProperty { toField := Shape.fieldOf ctx (ctx.below name data) name, item := i }).2) := by
  set x : Property := { toField := Shape.fieldOf ctx (ctx.below name data) name, item := i }
  refine .property data (by simp) ?_ ?_
  · rw [propertyName, property_addProperty_self]
    rfl
  · rw [propertyName, property_addProperty_self]
    exact hi.grown (grown_addProperty g x)

mutual

theorem readIn_plant {ctx : Context} {type : TypeClass} {data : Entries} {shape : Shape} (g : Graph)
    (hparse : Shape.parseItem ctx type data = .ok shape) :
    (g.plant shape).1.ReadIn ctx (.item (g.plant shape).2) := by
  rw [Shape.parseItem] at hparse
  split at hparse
  · obtain rfl := Except.ok.inj hparse
    exact .scalar _ _ _ (by simp [plant]) (item_addItem_self g _)
  · split at hparse
    · cases hparse
    · rename_i raw hitems
      split at hparse
      · cases hparse
      · rename_i items hentries
        have := Entries.sizeOf_get?_lt hitems
        have := Document.sizeOf_entries?_lt hentries
        split at hparse
        · cases hparse
        · split at hparse
          · cases hparse
          · obtain ⟨element, helement, rfl⟩ := map_eq_ok_iff.mp hparse
            exact .array (item_addItem_self _ _) ((readIn_plant g helement).grown (grown_addItem _ _))
  · split at hparse
    · cases hparse
    · rename_i required _
      split at hparse
      · obtain rfl := Except.ok.inj hparse
        exact .object required (object?_eq_some_iff.mpr (item_addItem_self g _)) rfl (by simp)
      · rename_i raw hproperties
        split at hparse
        · cases hparse
        · rename_i definitions hentries
          have := Entries.sizeOf_get?_lt hproperties
          have := Document.sizeOf_entries?_lt hentries
          obtain ⟨fields, hfields, rfl⟩ := map_eq_ok_iff.mp hparse
          refine .object required (object?_eq_some_iff.mpr (item_addItem_self _ _)) rfl fun p hp => ?_
          exact (readIn_plantFields g ∅ hfields (by simp) p hp).grown (grown_addItem _ _)
termination_by 2 * sizeOf data

theorem readIn_plantProperty {ctx : Context} {name : String} {data : Entries} {field : Field} {shape : Shape}
    (g : Graph) (hparse : Shape.parseField ctx name data = .ok (field, shape)) :
    field.name = name ∧ (g.plantProperty field shape).1.ReadIn ctx (.property (g.plantProperty field shape).2) := by
  rw [Shape.parseField] at hparse
  split at hparse
  · cases hparse
  · split at hparse
    · cases hparse
    · obtain ⟨shape', hitem, heq⟩ := map_eq_ok_iff.mp hparse
      obtain ⟨rfl, rfl⟩ := Prod.mk.inj heq
      exact ⟨rfl, readIn_addProperty (readIn_plant g hitem)⟩
termination_by 2 * sizeOf data + 1

theorem readIn_plantFields {ctx : Context} {required : List String} {definitions : Entries}
    {fields : List (Field × Shape)} (g : Graph) (filed : Registry PropertyId)
    (hparse : Shape.parseFields ctx required definitions = .ok fields)
    (hfiled : ∀ p ∈ filed.elements, g.ReadIn (ctx.property required (g.propertyName p)) (.property p)) :
    ∀ p ∈ (g.plantFields filed fields).2.elements,
      (g.plantFields filed fields).1.ReadIn (ctx.property required ((g.plantFields filed fields).1.propertyName p))
        (.property p) := by
  rw [Shape.parseFields.eq_def] at hparse
  split at hparse
  · obtain rfl := Except.ok.inj hparse
    exact hfiled
  · split at hparse
    · cases hparse
    · split at hparse
      · cases hparse
      · rename_i data hentries
        have := Document.sizeOf_entries?_lt hentries
        split at hparse
        · cases hparse
        · rename_i field hfield
          obtain ⟨field, shape⟩ := field
          obtain ⟨others, hrest, rfl⟩ := map_eq_ok_iff.mp hparse
          obtain ⟨rfl, hread⟩ := readIn_plantProperty g hfield
          set next := g.plantProperty field shape
          refine readIn_plantFields next.1 (filed.put field.name next.2) hrest fun p hp => ?_
          have hgrown : Grown g next.1 := (grown_plant g shape).trans
            (grown_addProperty _ { toField := field, item := (g.plant shape).2 })
          rcases Registry.mem_elements_put hp with rfl | hp
          · rw [propertyName_plantProperty]
            exact hread
          · have hproperty := hgrown.property_eq p (hfiled p hp).present
            rw [propertyName, hproperty]
            exact (hfiled p hp).grown hgrown
termination_by 2 * sizeOf definitions
decreasing_by
  all_goals grind

end

/-- **What is read and planted was read in its context.** -/
theorem readIn_parseProperty {data : Entries} {next : Graph × PropertyId}
    (hparse : g.parseProperty ctx name data = .ok next) :
    next.1.propertyName next.2 = name ∧ next.1.ReadIn ctx (.property next.2) := by
  obtain ⟨⟨field, shape⟩, hfield, rfl⟩ := map_eq_ok_iff.mp hparse
  obtain ⟨hname, hread⟩ := readIn_plantProperty g hfield
  exact ⟨(propertyName_plantProperty g field shape).trans hname, hread⟩

end Graph

end Schemata
