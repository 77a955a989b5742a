import Schemata.Proofs.Graph.Origins
import Schemata.Proofs.Lineage.Inheritance
import Schemata.Proofs.Scalar
import Schemata.Proofs.Schema

/-!
# Flags of scalars

A scalar can be null for two reasons, each with a flag of its own: its type admits the null, or no value need be
present. Sharing goes by fingerprints, and these tell whether a scalar can be null but not why. So a scalar that cannot
be null keeps both flags when the subtrees of a schema are shared (`parse_keeps_flags`). A scalar that can be null may be
exchanged for one beside it that can be null for the other reason (`parse_changes_flags_of_id`).

What must be present at the root is present when it is read (`Schema.required_of_read`). A join keeps the flag for the
null and sets the other one, if it changes anything (`Joined.exists_scalar`).
-/

namespace Schemata

open Schemata.Graph (linked Grown)
open Lineage (Joined Extends)
open Schema (Rooted)

variable {g g₀ h : Graph} {s : Schema} {data : Entries} {name : String} {k : ItemId} {q : PropertyId} {t : Scalar}

/-! ### What must be present -/

/-- The scalars inside a property must be present if the property is called `Id` or if its object requires it. -/
theorem Graph.ReadIn.required_eq_true {ctx : Shape.Context} {required : List String}
    (hq : g.ReadIn (ctx.property required (g.propertyName q)) (.property q))
    (hmust : Naming.goName (g.propertyName q) "" = "Id" ∨ g.propertyName q ∈ required)
    (henc : g.Encloses (g.property q).item k) (ht : g.item k = .scalar t) : t.required = true := by
  obtain ⟨data, -, hitem⟩ := hq.exists_below
  obtain ⟨kind, nullable, data', rfl⟩ := (hitem.encloses henc).exists_scalarOf ht
  have hcontext : ((ctx.property required (g.propertyName q)).below (g.propertyName q) data).required = true := by
    rcases hmust with hid | hmem
    · simp [Shape.Context.below, hid]
    · simp [Shape.Context.below, Shape.Context.property, hmem]
  rw [Shape.scalarOf, hcontext]
  rfl

theorem Scalar.required_of_isNull_eq_false (ht : t.isNull = false) : t.required = true := by
  rw [isNull, Bool.or_eq_false_iff, Bool.not_eq_false'] at ht
  exact ht.2

/-- The scalars inside a root property that is called `Id` or is required are read as ones that must be present. -/
theorem Schema.required_of_read {o : ObjectNode} (hread : read g data = .ok (h, s))
    (ho : h.object? (h.property s.root).item = some o) (hq : q ∈ o.properties.elements)
    (hmust : Naming.goName (h.propertyName q) "" = "Id" ∨ h.propertyName q ∈ o.required)
    (henc : h.Encloses (h.property q).item k) (ht : h.item k = .scalar t) : t.required = true := by
  obtain ⟨id, parent, bases, body, next, -, -, -, hparse, hobject, hparent, rfl⟩ := read_cases hread
  obtain ⟨r, hr⟩ := Graph.exists_object?_of_isObject hobject
  obtain ⟨hplanted, hloose, -⟩ := planted_parseProperty (.refl g) hparse
  have hnew := hplanted.new_of_link hloose.new (Graph.link_property_iff.mpr rfl)
  obtain ⟨body', -, hitem⟩ := (Graph.readIn_parseProperty hparse).2.exists_below
  obtain ⟨required, hrequired, hproperties⟩ := hitem.exists_required hr
  -- At the level of the root object all required names are kept.
  replace hrequired : r.required = required := hrequired
  obtain rfl | ⟨field, scalar, properties, -, hnull, -, hmem, rfl⟩ := addParent_cases hloose.new.2 hr
    (hplanted.filed hnew hr) (fun p hp => (hproperties p hp).present) hparent
  · obtain rfl := Option.some.inj (hr.symm.trans ho)
    rw [hrequired] at hmust
    exact (hproperties q hq).required_eq_true hmust henc ht
  · set leaf := next.1.addLeaf field scalar with hleaf
    have hgrown : Grown next.1 leaf.1 := next.1.grown_addLeaf field scalar
    have hr' : leaf.1.object? (next.1.property next.2).item = some r :=
      (Graph.object?_congr (hgrown.item_eq _ hnew.2)).trans hr
    obtain rfl : { r with properties } = o := by
      rw [Graph.property_setItem, hgrown.property_eq _ hloose.new.2, Graph.object?_eq_some_iff,
        Graph.item_setItem_self _ (Graph.lt_of_object? hr')] at ho
      exact Item.object.inj ho
    -- Only the root object is another one, so that arrays and scalars are where they were.
    have hitems : ∀ {i item}, (∀ c, item ≠ .object c) →
        (leaf.1.setItem (next.1.property next.2).item (.object { r with properties })).item i = item →
          leaf.1.item i = item := fun hitem => (Graph.item_setProperties_iff hr' hitem).mp
    have henc' : leaf.1.Encloses (leaf.1.property q).item k :=
      henc.congr fun _ _ harray => hitems (fun _ heq => nomatch heq) harray
    have ht' : leaf.1.item k = .scalar t := hitems (fun _ heq => nomatch heq) ht
    rcases hmem q hq with rfl | hq
    · have hheld : leaf.1.item (leaf.1.property leaf.2).item = .scalar scalar := next.1.held_addLeaf field scalar
      cases henc' with
      | refl =>
        obtain rfl := Item.scalar.inj (hheld.symm.trans ht')
        exact Scalar.required_of_isNull_eq_false hnull
      | array harray _ => exact nomatch hheld.symm.trans harray
    · have hname : leaf.1.propertyName q = next.1.propertyName q := by
        rw [Graph.propertyName, Graph.propertyName, hgrown.property_eq q (hproperties q hq).present]
      have hreadIn := (hproperties q hq).grown hgrown
      rw [← hname] at hreadIn
      have hmust' : Naming.goName (leaf.1.propertyName q) "" = "Id" ∨ leaf.1.propertyName q ∈ required := by
        rw [← hrequired]
        exact hmust
      exact hreadIn.required_eq_true hmust' henc' ht'

theorem Schema.required_of_itemAt? (hg : g.Sound) (hread : read g data = .ok (h, s))
    (ht : h.itemAt? s.root [name] = some (.scalar t))
    (hmust : Naming.goName name "" = "Id" ∨ name ∈ (s.rootObject h).required) : t.required = true := by
  obtain ⟨hplanted, hloose, o, ho, -⟩ := planted_read hread
  have hsound : h.Sound := hplanted.sound hg
  obtain ⟨q, hq, hitem⟩ := Graph.itemAt?_eq_some_iff.mp ht
  have hheld := hsound.present_held (hsound.present_propertyAt? hloose.new.present hq)
  rw [Graph.propertyAt?_singleton] at hq
  obtain ⟨o', ho', hq⟩ := Graph.child?_eq_some_iff.mp hq
  rw [Graph.innermost_eq ho] at ho'
  obtain rfl := Option.some.inj (ho.symm.trans ho')
  obtain ⟨hmem, rfl⟩ := (hsound.filed ho).get?_eq_some_iff.mp hq
  rw [rootObject_eq ho] at hmust
  exact required_of_read hread ho hmem hmust (hsound.encloses_innermost hheld).1 hitem

/-! ### Joins -/

theorem Graph.Has.held_eq_scalar_iff {p : PropertyId} (hp : g.Has p) (hgh : Graph.Kept g h) :
    h.held p = .scalar t ↔ g.held p = .scalar t := by
  refine ⟨fun ht => ?_, hp.held_eq_scalar hgh⟩
  rw [held, hgh.property_eq p hp.property_lt] at ht
  rcases hgh.item_cases _ hp.item_lt with heq | ⟨o, o', -, ho'⟩
  · exact heq.symm.trans ht
  · cases ht.symm.trans ho'

/-- What stands in place of a scalar differs from it at most in that a value must be present. -/
theorem Graph.Replaces.exists_scalar {must : Prop} {p : PropertyId} (hpq : Graph.Replaces g h must p q) (hp : g.Has p)
    (hgh : Graph.Kept g h) (ht : h.held q = .scalar t) :
    ∃ t₀, g.held p = .scalar t₀ ∧ (t = t₀ ∨ t = { t₀ with required := true }) := by
  by_cases hcopy : must ∧ (h.held p).isNull = true
  · obtain ⟨t₀, -, ht₀, hcopied⟩ := (hpq.copy hcopy.1 hcopy.2).held_eq
    exact ⟨t₀, (hp.held_eq_scalar_iff hgh).mp ht₀, .inr (Item.scalar.inj (ht.symm.trans hcopied))⟩
  · obtain rfl := hpq.same hcopy
    exact ⟨t, (hp.held_eq_scalar_iff hgh).mp ht, .inl rfl⟩

/-- **A scalar after a join** is one that the schema or a base had under its name, as it was or as one that must be
present. -/
theorem Lineage.Joined.exists_scalar {all : Registry Schema} (hjoined : Joined all s g h) (hs : s ∈ all.elements)
    (hrooted : Rooted g all.elements) (hq : s.property? h name = some q) (ht : h.held q = .scalar t) :
    ∃ u p t₀, (u = s ∨ Extends all s u) ∧ u.property? g name = some p ∧ g.held p = .scalar t₀ ∧
      (t = t₀ ∨ t = { t₀ with required := true }) := by
  cases hown : s.property? g name with
  | some p =>
    obtain ⟨q', hq', hreplaces⟩ := hjoined.own name p hown
    obtain rfl := Option.some.inj (hq'.symm.trans hq)
    obtain ⟨t₀, ht₀, hcases⟩ := hreplaces.exists_scalar ((hrooted.hasRoot s hs).has_of_property? hown) hjoined.kept ht
    exact ⟨s, p, t₀, .inl rfl, hown, ht₀, hcases⟩
  | none =>
    obtain ⟨u, hu, p, hp⟩ : ∃ u, Extends all s u ∧ ∃ p, u.property? g name = some p := by
      by_contra hno
      push Not at hno
      have hnone := hjoined.none name hown fun u hu => Option.eq_none_iff_forall_ne_some.mpr (hno u hu)
      exact nomatch hnone.symm.trans hq
    obtain ⟨q', hq', hreplaces⟩ := hjoined.inherited name u p hown hu hp
    obtain rfl := Option.some.inj (hq'.symm.trans hq)
    obtain ⟨t₀, ht₀, hcases⟩ :=
      hreplaces.exists_scalar ((hrooted.hasRoot u hu.mem_elements).has_of_property? hp) hjoined.kept ht
    exact ⟨u, p, t₀, .inr hu, hp, ht₀, hcases⟩

namespace Schema

/-! ### Sharing -/

/-- **A scalar that cannot be null keeps its flags**, and one that can be null stays so. At the root, what is called
`Id` or required must be present, and stays so if its type does not admit the null. A later join keeps the flag for the
null, also where it makes a scalar present. -/
theorem parse_keeps_flags (hg : g.Sound) (hread : read g data = .ok (g₀, s)) (hparse : parse g data = .ok (h, s))
    (hdiscerning : linked.Discerning g₀ (.property s.root)) :
    (∀ path t, g₀.itemAt? s.root path = some (.scalar t) → ∃ t', h.itemAt? s.root path = some (.scalar t') ∧
      t'.isNull = t.isNull ∧ (t.isNull = false → t'.required = t.required ∧ t'.nullable = t.nullable) ∧
      ∃ path', path'.length = path.length ∧ g₀.itemAt? s.root path' = some (.scalar t')) ∧
    (∀ name t, g₀.itemAt? s.root [name] = some (.scalar t) →
      Naming.goName name "" = "Id" ∨ name ∈ (s.rootObject g₀).required →
      t.required = true ∧ (t.nullable = false → ∃ t', h.itemAt? s.root [name] = some (.scalar t') ∧
        t'.required = true ∧ t'.nullable = false)) ∧
    ∀ (all : Registry Schema) (c c' : Graph) (u : Schema) (count : Nat), Rooted c all.elements → u ∈ all.elements →
      u.join c (Lineage.basesOf all u) = .ok (c', count) → ∀ name q t', u.property? c' name = some q →
      c'.held q = .scalar t' → ∃ v p t, (v = u ∨ Extends all u v) ∧ v.property? c name = some p ∧ c.held p = .scalar t ∧
        (t' = t ∨ t' = { t with required := true }) := by
  obtain ⟨hplanted, hloose, o, ho, -⟩ := planted_read hread
  have hsound : g₀.Sound := hplanted.sound hg
  have hpresent : g₀.Present (.property s.root) := hloose.new.present
  obtain rfl : g₀.dedup s.root sharingLevel = h :=
    congrArg Prod.fst (Except.ok.inj ((parse_eq_of_read hread).symm.trans hparse))
  have hshared : ∀ path t, g₀.itemAt? s.root path = some (.scalar t) →
      ∃ t', (g₀.dedup s.root sharingLevel).itemAt? s.root path = some (.scalar t') ∧ t'.isNull = t.isNull ∧
        (t.isNull = false → t'.required = t.required ∧ t'.nullable = t.nullable) ∧
        ∃ path', path'.length = path.length ∧ g₀.itemAt? s.root path' = some (.scalar t') := by
    intro path t ht
    obtain ⟨t', ht', hfingerprint, hbefore⟩ :=
      hsound.exists_scalar_dedup hpresent hdiscerning (hplanted.arboreal hloose.new) ht
    have hnull : t'.isNull = t.isNull := (Scalar.fingerprint_eq_iff.mp hfingerprint).2.1
    exact ⟨t', ht', hnull, Scalar.flags_eq_of_isNull_eq_false hnull, hbefore⟩
  refine ⟨hshared, fun name t ht hmust => ?_, fun all c c' u count hrooted hu hjoin name q t' hq ht' => ?_⟩
  · have hrequired := required_of_itemAt? hg hread ht hmust
    refine ⟨hrequired, fun hnullable => ?_⟩
    obtain ⟨t', ht', -, hflags, -⟩ := hshared [name] t ht
    obtain ⟨hreq, hnul⟩ := hflags (by rw [Scalar.isNull, hnullable, hrequired]; rfl)
    exact ⟨t', ht', hreq.trans hrequired, hnul.trans hnullable⟩
  · have hstep : Lineage.joinStep all c u = .ok c' := by
      rw [Lineage.joinStep_eq (hrooted.hasRoot u hu), hjoin]
      rfl
    exact (Lineage.joined_of_joinStep_eq_ok hu hrooted hstep).exists_scalar hu hrooted hq ht'

/-! ### A contact and a customer -/

/-- A text or the null. -/
def nullableText : Entries :=
  [(.text "type", .list [.text "string", .text "null"])]

/-- A contact must have a name, and may have the null for a mail address. -/
def contactData : Entries :=
  [(.text "id", .text "contact"), (.text "schema", .mapping
    [(.text "type", .text "object"), (.text "required", .list [.text "name"]), (.text "properties", .mapping
      [(.text "id", .mapping (definition "string")), (.text "mail", .mapping nullableText),
        (.text "name", .mapping (definition "string"))])])]

/-- A customer is a contact that must give a mail address. -/
def customerData : Entries :=
  [(.text "id", .text "customer"), (.text "extends", .list [.text "contact"]), (.text "schema", .mapping
    [(.text "type", .text "object"), (.text "required", .list [.text "mail"])])]

/-- The contact before anything is shared. -/
def contactRead : Graph × Schema :=
  (read {} contactData).toOption.getD default

/-- The contact: the name holds the scalar of the identifier. -/
def contact : Graph × Schema :=
  (contactRead.1.redirect ⟨.property ⟨2⟩, .item ⟨0⟩, .item ⟨2⟩⟩, contactRead.2)

/-- The customer, and the graph with both. -/
def customer : Graph × Schema :=
  (read contact.1 customerData).toOption.getD default

theorem read_contact : read {} contactData = .ok contactRead :=
  eq_ok_of_isSome_toOption (by decide +kernel)

theorem parse_contact : parse {} contactData = .ok contact := by
  refine parse_eq_of_plan_eq [⟨.property ⟨2⟩, .item ⟨0⟩, .item ⟨2⟩⟩] read_contact ?_
  rw [Sharing.Linked.plan, Sharing.plan, Sharing.sweepTree, Sharing.candidates_eq_insertionSort]
  decide +kernel

theorem parse_customer : parse contact.1 customerData = .ok customer := by
  refine parse_eq_of_plan_eq_nil (eq_ok_of_isSome_toOption (by decide +kernel)) ?_
  rw [Sharing.Linked.plan, Sharing.plan, Sharing.sweepTree, Sharing.candidates_eq_insertionSort]
  decide +kernel

/-- The contact and the customer. -/
def contacts : Registry Schema :=
  Registry.ofList Schema.id [contact.2, customer.2]

/-- The customer after it is joined with the contact. -/
def customerJoined : Graph × Nat :=
  (customer.2.join customer.1 (Lineage.basesOf contacts customer.2)).toOption.getD default

/-- The name of a contact must be present. The mail address that a customer must give can still be the null. -/
theorem flags_of_contact :
    (∃ t, contact.1.itemAt? contact.2.root ["name"] = some (.scalar t) ∧ t.required = true ∧ t.nullable = false) ∧
      customer.2.join customer.1 (Lineage.basesOf contacts customer.2) = .ok customerJoined ∧
      customer.2.property? customerJoined.1 "mail" = some ⟨5⟩ ∧
      ∃ u p t, (u = customer.2 ∨ Extends contacts customer.2 u) ∧ u.property? customer.1 "mail" = some p ∧
        customer.1.held p = .scalar t ∧ t.nullable = true ∧
        customerJoined.1.held ⟨5⟩ = .scalar { t with required := true } := by
  obtain ⟨-, hroot, hjoin⟩ := parse_keeps_flags Graph.sound_empty read_contact parse_contact (by decide +kernel)
  have hrooted : Rooted customer.1 [customer.2, contact.2] :=
    ((Parses.start {}).parse parse_contact |>.parse parse_customer).rooted
  have hjoined : customer.2.join customer.1 (Lineage.basesOf contacts customer.2) = .ok customerJoined :=
    eq_ok_of_isSome_toOption (by decide +kernel)
  have hmail : customer.2.property? customerJoined.1 "mail" = some ⟨5⟩ := by decide +kernel
  have hheld : customerJoined.1.held ⟨5⟩ = .scalar ⟨.string, true, true, none⟩ := by decide +kernel
  refine ⟨?_, hjoined, hmail, ?_⟩
  · exact (hroot "name" ⟨.string, true, false, none⟩ (by decide +kernel) (.inr (by decide +kernel))).2 rfl
  · obtain ⟨u, p, t, hu, hp, ht, hcases⟩ := hjoin contacts customer.1 customerJoined.1 customer.2 customerJoined.2
      (hrooted.subset (by decide +kernel)) (by decide +kernel) hjoined "mail" ⟨5⟩ _ hmail hheld
    refine ⟨u, p, t, hu, hp, ht, ?_⟩
    rw [hheld]
    rcases hcases with rfl | heq
    · exact ⟨rfl, rfl⟩
    · exact ⟨(congrArg Scalar.nullable heq).symm, congrArg Item.scalar heq⟩

/-! ### A person -/

/-- A person may have an alias, and has an identifier or the null. -/
def personData : Entries :=
  [(.text "id", .text "person"), (.text "schema", .mapping
    [(.text "type", .text "object"), (.text "properties", .mapping
      [(.text "alias", .mapping (definition "string")), (.text "id", .mapping nullableText)])])]

/-- The person before anything is shared. -/
def personRead : Graph × Schema :=
  (read {} personData).toOption.getD default

/-- The person: the identifier holds the scalar of the alias. -/
def person : Graph × Schema :=
  (personRead.1.redirect ⟨.property ⟨1⟩, .item ⟨0⟩, .item ⟨1⟩⟩, personRead.2)

/-- **The identifier loses its flags**: the alias and the identifier can both be null, and one scalar serves for both. -/
theorem parse_changes_flags_of_id :
    read {} personData = .ok personRead ∧ parse {} personData = .ok person ∧
      linked.Discerning personRead.1 (.property personRead.2.root) ∧ Naming.goName "id" "" = "Id" ∧
      personRead.1.itemAt? personRead.2.root ["id"] = some (.scalar ⟨.string, true, true, none⟩) ∧
      person.1.itemAt? person.2.root ["id"] = some (.scalar ⟨.string, false, false, none⟩) := by
  have hread : read {} personData = .ok personRead := eq_ok_of_isSome_toOption (by decide +kernel)
  refine ⟨hread, parse_eq_of_plan_eq [⟨.property ⟨1⟩, .item ⟨0⟩, .item ⟨1⟩⟩] hread ?_, ?_⟩
  · rw [Sharing.Linked.plan, Sharing.plan, Sharing.sweepTree, Sharing.candidates_eq_insertionSort]
    decide +kernel
  · decide +kernel

end Schema

end Schemata
