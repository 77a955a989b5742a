import Schemata.Proofs.Lineage.Canopy
import Schemata.Proofs.Lineage.Frame

/-!
# Joins keep a graph sound

What a join adds to a graph are leaves: required copies of properties, and the scalars that they hold (`Graph.Sprouted`).
Besides that it changes the root object of its schema, whose new properties lie below all root objects. So the graph
stays sound, and its nodes stay the roots of the given schemas and the region below them (`Schema.Roofed`).

This holds after every run of `Lineage.resolve`, whether it fails or not (`Schema.Roofed.resolve`).
-/

namespace Schemata

open Schemata.Graph (New Grown)

variable {g h k : Graph} {all roots : Registry Schema} {s t : Schema} {schemas parsed : List Schema} {x y : Node}

/-! ### What joins add -/

namespace Graph

/-- Leaves have been added to a graph: scalars, and properties that hold them. -/
structure Sprouted (g h : Graph) : Prop where
  grown : Grown g h
  scalar : ∀ {i : ItemId}, New g h (.item i) → ∃ s, h.item i = .scalar s
  held : ∀ {p : PropertyId}, New g h (.property p) → New g h (.item (h.property p).item)
  /-- No two properties hold the same scalar. -/
  inj : ∀ {p q : PropertyId}, New g h (.property p) → New g h (.property q) →
    (h.property p).item = (h.property q).item → p = q

theorem Sprouted.refl (g : Graph) : Sprouted g g :=
  ⟨.refl g, fun hi => absurd hi.1 (Nat.not_le.mpr hi.2), fun hp => absurd hp.1 (Nat.not_le.mpr hp.2),
    fun hp => absurd hp.1 (Nat.not_le.mpr hp.2)⟩

theorem Sprouted.trans (hgh : Sprouted g h) (hhk : Sprouted h k) : Sprouted g k := by
  refine ⟨hgh.grown.trans hhk.grown, fun {i} hi => ?_, fun {p} hp => ?_, fun {p q} hp hq heq => ?_⟩
  · rcases Nat.lt_or_ge i.index h.items.size with hlt | hge
    · rw [hhk.grown.item_eq i hlt]
      exact hgh.scalar ⟨hi.1, hlt⟩
    · exact hhk.scalar ⟨hge, hi.2⟩
  · rcases Nat.lt_or_ge p.index h.properties.size with hlt | hge
    · rw [hhk.grown.property_eq p hlt]
      exact (hgh.held ⟨hp.1, hlt⟩).grown hhk.grown
    · have hheld := hhk.held ⟨hge, hp.2⟩
      exact ⟨hgh.grown.items_le.trans hheld.1, hheld.2⟩
  · -- The scalars of the earlier leaves come before those of the later ones.
    rcases Nat.lt_or_ge p.index h.properties.size with hlt | hge
    · rcases Nat.lt_or_ge q.index h.properties.size with hlt' | hge'
      · rw [hhk.grown.property_eq p hlt, hhk.grown.property_eq q hlt'] at heq
        exact hgh.inj ⟨hp.1, hlt⟩ ⟨hq.1, hlt'⟩ heq
      · rw [hhk.grown.property_eq p hlt] at heq
        exact absurd (hhk.held ⟨hge', hq.2⟩) (heq ▸ (hgh.held ⟨hp.1, hlt⟩).present.not_new)
    · rcases Nat.lt_or_ge q.index h.properties.size with hlt' | hge'
      · rw [hhk.grown.property_eq q hlt'] at heq
        exact absurd (hhk.held ⟨hge, hp.2⟩) (heq ▸ (hgh.held ⟨hq.1, hlt'⟩).present.not_new)
      · exact hhk.inj ⟨hge, hp.2⟩ ⟨hge', hq.2⟩ heq

theorem sprouted_addLeaf (g : Graph) (field : Field) (scalar : Scalar) : Sprouted g (g.addLeaf field scalar).1 := by
  have hitem : ∀ {i : ItemId}, New g (g.addLeaf field scalar).1 (.item i) → i = ⟨g.items.size⟩ := by
    rintro i ⟨hge, hlt⟩
    simp only [addLeaf, size_items_addProperty, size_items_addItem] at hlt
    exact congrArg ItemId.mk (show i.index = g.items.size by omega)
  have hproperty : ∀ {p : PropertyId}, New g (g.addLeaf field scalar).1 (.property p) →
      p = (g.addLeaf field scalar).2 := by
    rintro p ⟨hge, hlt⟩
    simp only [addLeaf, size_properties_addProperty, size_properties_addItem] at hlt
    exact congrArg PropertyId.mk (show p.index = g.properties.size by omega)
  refine ⟨g.grown_addLeaf _ _, fun hi => ⟨scalar, ?_⟩, fun hp => ?_,
    fun hp hq _ => (hproperty hp).trans (hproperty hq).symm⟩
  · rw [hitem hi]
    exact item_addItem_self g _
  · rw [hproperty hp, property_addLeaf]
    exact ⟨le_rfl, by simp [addLeaf]⟩

/-- A required copy is a leaf. -/
theorem sprouted_requiredCopy? {p q : PropertyId} (hcopy : g.requiredCopy? p = some (h, q)) : Sprouted g h := by
  obtain ⟨s, -, -, heq⟩ := requiredCopy?_eq_some_iff.mp hcopy
  obtain rfl : h = _ := congrArg Prod.fst heq
  exact g.sprouted_addLeaf _ _

theorem sprouted_requireAll {required : List String} (ps : List PropertyId) : ∀ (g : Graph) (filed : Registry PropertyId),
    Sprouted g (g.requireAll required filed ps).1 := by
  induction ps with
  | nil => exact fun g _ => .refl g
  | cons p ps ih =>
    intro g filed
    rw [requireAll]
    split_ifs
    · cases hcopy : g.requiredCopy? p with
      | none => exact ih g filed
      | some copied => exact (sprouted_requiredCopy? hcopy).trans (ih _ _)
    · exact ih g filed

/-- When properties are added leniently, leaves sprout and the object gets other properties. -/
theorem exists_sprouted_of_addProperties {i : ItemId} {o : ObjectNode} {added : Registry PropertyId}
    (ho : g.object? i = some o) (hadd : g.addProperties i added false = .ok h) :
    h = g ∨ ∃ k properties, Sprouted g k ∧ h = k.setItem i (.object { o with properties }) := by
  rw [addProperties, object?_eq_some_iff.mp ho] at hadd
  by_cases hempty : added.isEmpty = true
  · simp only [hempty, if_true] at hadd
    exact .inl (Except.ok.inj hadd).symm
  · simp only [hempty, Bool.false_eq_true, if_false] at hadd
    exact .inr ⟨_, _, sprouted_requireAll _ _ _, (Except.ok.inj hadd).symm⟩

end Graph

/-- A join adds leaves and changes the root object of its schema. -/
theorem Lineage.exists_sprouted_of_joinStep (hs : s.HasRoot g) (hstep : Lineage.joinStep all g s = .ok h) :
    h = g ∨ ∃ k properties, Graph.Sprouted g k ∧
      h = k.setItem (s.rootItem g) (.object { s.rootObject g with properties }) := by
  rw [joinStep_eq hs, map_eq_ok_iff] at hstep
  obtain ⟨⟨joined, count⟩, hjoin, rfl⟩ := hstep
  rw [Schema.join, bind_eq_ok_iff] at hjoin
  obtain ⟨added, -, hjoin⟩ := hjoin
  obtain ⟨graph, hadd, hjoin⟩ := bind_eq_ok_iff.mp hjoin
  obtain ⟨rfl, -⟩ := Prod.mk.inj (Except.ok.inj hjoin)
  exact Graph.exists_sprouted_of_addProperties hs.object (mapError_eq_ok_iff.mp hadd)

/-- The new items of a join are scalars. -/
theorem Lineage.exists_scalar_of_new {i : ItemId} (hs : s.HasRoot g) (hstep : Lineage.joinStep all g s = .ok h)
    (hnew : New g h (.item i)) : ∃ scalar, h.item i = .scalar scalar := by
  obtain rfl | ⟨k, properties, hsprouted, rfl⟩ := exists_sprouted_of_joinStep hs hstep
  · exact absurd hnew hnew.present.not_new
  · have hne : i ≠ s.rootItem g := by
      rintro rfl
      exact absurd hs.root.item_lt (Nat.not_lt.mpr hnew.1)
    rw [Graph.item_setItem_of_ne _ hne]
    exact hsprouted.scalar (Graph.new_setItem_iff.mp hnew)

/-- The new properties of a join hold different scalars. -/
theorem Lineage.eq_of_item_eq_of_new {p q : PropertyId} (hs : s.HasRoot g) (hstep : Lineage.joinStep all g s = .ok h)
    (hp : New g h (.property p)) (hq : New g h (.property q)) (heq : (h.property p).item = (h.property q).item) :
    p = q := by
  obtain rfl | ⟨k, properties, hsprouted, rfl⟩ := exists_sprouted_of_joinStep hs hstep
  · exact absurd hp hp.present.not_new
  · exact hsprouted.inj (Graph.new_setItem_iff.mp hp) (Graph.new_setItem_iff.mp hq) heq

/-- A new node leads to nothing, or from a copy to its scalar. -/
theorem Lineage.exists_of_link_new (hs : s.HasRoot g) (hstep : Lineage.joinStep all g s = .ok h) (hnew : New g h x)
    (hlink : h.Link x y) : ∃ p i, x = .property p ∧ y = .item i ∧ New g h y := by
  cases x with
  | item i =>
    obtain ⟨scalar, hscalar⟩ := exists_scalar_of_new hs hstep hnew
    rw [Graph.Link, Graph.children_item, hscalar] at hlink
    exact absurd hlink List.not_mem_nil
  | property p =>
    obtain rfl := Graph.link_property_iff.mp hlink
    refine ⟨p, _, rfl, rfl, ?_⟩
    obtain rfl | ⟨k, properties, hsprouted, rfl⟩ := exists_sprouted_of_joinStep hs hstep
    · exact absurd hnew hnew.present.not_new
    · exact Graph.new_setItem_iff.mpr (hsprouted.held (Graph.new_setItem_iff.mp hnew))

theorem Graph.Present.kept (hx : g.Present x) (hgh : Graph.Kept g h) : h.Present x := by
  cases x with
  | item i => exact hx.trans_le hgh.items_le
  | property p => exact hx.trans_le hgh.properties_le

/-- A join changes the links of the root object of its schema and no others. -/
theorem Lineage.Joined.link_iff (hjoined : Lineage.Joined all s g h) (hx : g.Present x)
    (hne : x ≠ .item (s.rootItem g)) : h.Link x y ↔ g.Link x y := by
  cases x with
  | property p => rw [Graph.link_property_iff, Graph.link_property_iff, hjoined.kept.property_eq p hx]
  | item i =>
    rw [Graph.Link, Graph.Link, Graph.children_item, Graph.children_item,
      hjoined.item_eq i hx fun heq => hne (heq ▸ rfl)]

/-! ### Roofs -/

namespace Schema

open Lineage (Joined joinStep Reachable)

/-- A sound graph that consists of the roots of schemas and a region below them. -/
structure Roofed (g : Graph) (schemas : List Schema) : Prop where
  sound : g.Sound
  canopy : ∃ rank, Canopy g schemas (rest g schemas) rank

/-- Some of the schemas that have been read; the roots of the others are below theirs like everything else. -/
theorem Assembled.roofed (hg : Assembled g parsed) (hsubset : ∀ s ∈ schemas, s ∈ parsed) : Roofed g schemas := by
  obtain ⟨rank, hgraded⟩ := hg.sound.exists_graded
  have hrooted := hg.parses.rooted
  have hrest : ∀ {x}, x ∈ rest g parsed → x ∈ rest g schemas := fun hx => ⟨hx.1, fun s hs => hx.2 s (hsubset s hs)⟩
  refine ⟨hg.sound, rank, fun hx => hx.1, fun {x y} hx hlink => ?_, fun hx hlink => hgraded.lt hx.1 hlink,
    fun s hs hmem => (hmem.2 s hs).2 rfl, fun s hs p hp => ?_, fun s hs => hg.typeName_eq s (hsubset s hs)⟩
  · by_cases hroot : x ∈ rest g parsed
    · exact hrest (hg.closed hroot hlink)
    -- The root of another schema leads to its object, and that to what is below all roots.
    obtain ⟨t, ht, hxt⟩ : ∃ t ∈ parsed, x = .property t.root ∨ x = .item (t.rootItem g) := by
      by_contra hnot
      push Not at hnot
      exact hroot ⟨hx.1, hnot⟩
    rcases hxt with rfl | rfl
    · obtain rfl := Graph.link_property_iff.mp hlink
      refine ⟨hg.sound.present hx.1 hlink, fun s hs => ⟨(nomatch ·), fun heq => ?_⟩⟩
      have hts : t = s := hrooted.inj t ht s (hsubset s hs) (Node.item.inj heq)
      exact (hx.2 s hs).1 (hts ▸ rfl)
    · exact hrest (hg.held t ht hlink)
  · have hobject := (hrooted.hasRoot s (hsubset s hs)).object
    exact hrest (hg.held s (hsubset s hs) (Graph.link_item_property_iff.mpr ⟨_, hobject, hp⟩))

theorem mem_rest_or_root (hx : g.Present x) :
    x ∈ rest g schemas ∨ (∃ s ∈ schemas, x = .property s.root) ∨ ∃ s ∈ schemas, x = .item (s.rootItem g) := by
  by_contra hnot
  push Not at hnot
  exact hnot.1 ⟨hx, fun s hs => ⟨hnot.2.1 s hs, hnot.2.2 s hs⟩⟩

section Join

variable (hrooted : Rooted g all.elements)

include hrooted

/-- The region below the roots after a join: what it was before, and what is new. -/
theorem mem_rest_joined_iff (hjoined : Joined all s g h) : x ∈ rest h all.elements ↔ x ∈ rest g all.elements ∨ New g h x := by
  have hitem : ∀ t ∈ all.elements, t.rootItem h = t.rootItem g :=
    fun t ht => (hrooted.hasRoot t ht).rootItem_eq hjoined.kept
  have hroots : ∀ t ∈ all.elements, g.Present (.property t.root) ∧ g.Present (.item (t.rootItem g)) :=
    fun t ht => ⟨(hrooted.hasRoot t ht).root.property_lt, (hrooted.hasRoot t ht).root.item_lt⟩
  constructor
  · rintro ⟨hx, hne⟩
    refine (hx.old_or_new (b := g)).imp_left fun hold => ⟨hold, fun t ht => ?_⟩
    rw [← hitem t ht]
    exact hne t ht
  · rintro (⟨hx, hne⟩ | hnew)
    · refine ⟨hx.kept hjoined.kept, fun t ht => ?_⟩
      rw [hitem t ht]
      exact hne t ht
    · refine ⟨hnew.present, fun t ht => ?_⟩
      rw [hitem t ht]
      exact ⟨fun heq => (hroots t ht).1.not_new (heq ▸ hnew), fun heq => (hroots t ht).2.not_new (heq ▸ hnew)⟩

variable (hg : Roofed g all.elements) (hs : s ∈ all.elements) (hstep : joinStep all g s = .ok h)

include hg hs hstep

/-- After a join nothing leads out of the region below the roots. -/
theorem Roofed.closed_joined (hx : x ∈ rest h all.elements) (hlink : h.Link x y) :
    (x ∈ rest g all.elements ∧ y ∈ rest g all.elements ∧ g.Link x y) ∨
      ∃ p i, x = .property p ∧ y = .item i ∧ New g h y := by
  have hjoined := Lineage.joined_of_joinStep_eq_ok hs hrooted hstep
  obtain ⟨_, hcanopy⟩ := hg.canopy
  rcases (mem_rest_joined_iff hrooted hjoined).mp hx with hold | hnew
  · have hlink := (hjoined.link_iff hold.1 (hold.2 s hs).2).mp hlink
    exact .inl ⟨hold, hcanopy.closed hold hlink, hlink⟩
  · exact .inr (Lineage.exists_of_link_new (hrooted.hasRoot s hs) hstep hnew hlink)

/-- After a join the root objects hold properties of the region. -/
theorem Roofed.held_joined (ht : t ∈ all.elements) (hlink : h.Link (.item (t.rootItem h)) x) :
    x ∈ rest h all.elements := by
  have hjoined := Lineage.joined_of_joinStep_eq_ok hs hrooted hstep
  obtain ⟨_, hcanopy⟩ := hg.canopy
  obtain ⟨_, hcanopy'⟩ := hcanopy.joined hjoined hrooted hs
  have hobject := ((hjoined.frame hs hrooted).1.hasRoot t ht).object
  rcases Graph.link_item_iff.mp hlink with ⟨e, he, -⟩ | ⟨o, ho, p, hp, rfl⟩
  · exact nomatch he.symm.trans (Graph.object?_eq_some_iff.mp hobject)
  · rw [← rootObject_eq (Graph.object?_eq_some_iff.mpr ho)] at hp
    refine (mem_rest_joined_iff hrooted hjoined).mpr ((hcanopy'.held t ht p hp).imp_right ?_)
    rintro ⟨p', q, hcopy, heq | heq⟩
    · exact heq ▸ hcopy.new
    · exact nomatch heq

/-- In the region below the roots a join makes no cycle: old links lead where they did, and new ones to leaves. -/
theorem Roofed.not_cycle_joined (hx : x ∈ rest h all.elements) : ¬ Relation.TransGen h.Link x x := by
  have hjoined := Lineage.joined_of_joinStep_eq_ok hs hrooted hstep
  have hdown : ∀ {y}, Relation.TransGen h.Link x y → y ∈ rest h all.elements ∧
      (Relation.TransGen g.Link x y ∨ ∃ i, y = .item i ∧ New g h y) := by
    intro y hxy
    induction hxy with
    | single hlink =>
      rw [mem_rest_joined_iff hrooted hjoined]
      rcases hg.closed_joined hrooted hs hstep hx hlink with ⟨-, hy, hlink⟩ | ⟨-, i, -, rfl, hy⟩
      · exact ⟨.inl hy, .inl (.single hlink)⟩
      · exact ⟨.inr hy, .inr ⟨i, rfl, hy⟩⟩
    | tail _ hlink ih =>
      rw [mem_rest_joined_iff hrooted hjoined]
      rcases hg.closed_joined hrooted hs hstep ih.1 hlink with ⟨hz, hy, hlink⟩ | ⟨-, i, -, rfl, hy⟩
      · refine ⟨.inl hy, .inl ?_⟩
        rcases ih.2 with hpath | ⟨-, -, hnew⟩
        · exact hpath.tail hlink
        · exact absurd hnew hz.1.not_new
      · exact ⟨.inr hy, .inr ⟨i, rfl, hy⟩⟩
  intro hcycle
  rcases (hdown hcycle).2 with hold | ⟨i, rfl, hnew⟩
  · exact hg.sound.acyclic x hold
  · obtain ⟨y, hlink, -⟩ := Relation.TransGen.head'_iff.mp hcycle
    obtain ⟨p, -, heq, -⟩ := Lineage.exists_of_link_new (hrooted.hasRoot s hs) hstep hnew hlink
    exact nomatch heq

/-- Objects go on filing their properties by name. -/
theorem Roofed.filed_joined {i : ItemId} {o : ObjectNode} (ho : h.object? i = some o) :
    o.properties.Filed h.propertyName := by
  have hjoined := Lineage.joined_of_joinStep_eq_ok hs hrooted hstep
  have hi : h.Present (.item i) := Graph.lt_of_object? ho
  by_cases hroot : i = s.rootItem h
  · have hobject : h.object? (s.rootItem h) = some o := hroot ▸ ho
    rw [← rootObject_eq hobject]
    exact hjoined.hasRoot.filed
  rcases hi.old_or_new (b := g) with hold | hnew
  · have hne : i ≠ s.rootItem g := (hrooted.hasRoot s hs).rootItem_eq hjoined.kept ▸ hroot
    rw [Graph.object?_congr (hjoined.item_eq i hold hne)] at ho
    refine (hg.sound.filed ho).congr fun p hp => ?_
    have hp : g.Present (.property p) := hg.sound.present hold (Graph.link_item_property_iff.mpr ⟨o, ho, hp⟩)
    rw [Graph.propertyName, Graph.propertyName, hjoined.kept.property_eq p hp]
  · obtain ⟨scalar, hscalar⟩ := Lineage.exists_scalar_of_new (hrooted.hasRoot s hs) hstep hnew
    exact nomatch hscalar.symm.trans (Graph.object?_eq_some_iff.mp ho)

/-- **One join** keeps a roof over the graph. -/
theorem Roofed.joined : Roofed h all.elements := by
  have hjoined := Lineage.joined_of_joinStep_eq_ok hs hrooted hstep
  obtain ⟨hrooted', -⟩ := hjoined.frame hs hrooted
  obtain ⟨_, hcanopy⟩ := hg.canopy
  obtain ⟨_, hcanopy'⟩ := hcanopy.joined hjoined hrooted hs
  have hclosed : ∀ {x y}, x ∈ rest h all.elements → h.Link x y → y ∈ rest h all.elements := by
    intro x y hx hlink
    rw [mem_rest_joined_iff hrooted hjoined]
    exact (hg.closed_joined hrooted hs hstep hx hlink).imp (fun hold => hold.2.1) fun ⟨_, _, _, _, hnew⟩ => hnew
  have hheld : ∀ t ∈ all.elements, ∀ {x}, h.Link (.item (t.rootItem h)) x → x ∈ rest h all.elements :=
    fun t ht x hlink => hg.held_joined hrooted hs hstep ht hlink
  have hpresent : ∀ {x y}, h.Present x → h.Link x y → h.Present y := by
    intro x y hx hlink
    rcases mem_rest_or_root hx with hrest | ⟨t, ht, rfl⟩ | ⟨t, ht, rfl⟩
    · exact (hclosed hrest hlink).1
    · rw [Graph.link_property_iff.mp hlink]
      exact (hrooted'.hasRoot t ht).root.item_lt
    · exact (hheld t ht hlink).1
  have hdown : ∀ {x y}, x ∈ rest h all.elements → Relation.ReflTransGen h.Link x y → y ∈ rest h all.elements := by
    intro x y hx hxy
    induction hxy with
    | refl => exact hx
    | tail _ hlink ih => exact hclosed ih hlink
  have hsound : h.Sound := by
    refine ⟨hpresent, fun x hcycle => ?_, fun ho => hg.filed_joined hrooted hs hstep ho⟩
    rcases mem_rest_or_root (Graph.present_of_cycle hpresent hcycle) with hrest | ⟨t, ht, rfl⟩ | ⟨t, ht, rfl⟩
    · exact hg.not_cycle_joined hrooted hs hstep hrest hcycle
    · -- From the root of a schema links lead to its object, and from there down.
      obtain ⟨y, hy, hpath⟩ := Relation.TransGen.head'_iff.mp hcycle
      obtain rfl := Graph.link_property_iff.mp hy
      rcases Relation.ReflTransGen.cases_head hpath with heq | ⟨z, hz, hpath⟩
      · exact nomatch heq
      · exact ((hdown (hheld t ht hz) hpath).2 t ht).1 rfl
    · obtain ⟨y, hy, hpath⟩ := Relation.TransGen.head'_iff.mp hcycle
      exact ((hdown (hheld t ht hy) hpath).2 t ht).2 rfl
  obtain ⟨rank, hgraded⟩ := hsound.exists_graded
  refine ⟨hsound, rank, fun hx => hx.1, hclosed, fun hx hlink => hgraded.lt hx.1 hlink,
    fun t ht hmem => (hmem.2 t ht).2 rfl, fun t ht p hp => ?_, hcanopy'.typeName_eq⟩
  exact hheld t ht (Graph.link_item_property_iff.mpr ⟨_, (hrooted'.hasRoot t ht).object, hp⟩)

end Join

/-- **All joins** keep a roof over the graph. -/
theorem Roofed.foldlM (order : List Schema) : ∀ {g : Graph}, Roofed g all.elements → Rooted g all.elements →
    (∀ s ∈ order, s ∈ all.elements) → order.foldlM (joinStep all) g = .ok h → Roofed h all.elements := by
  induction order with
  | nil =>
    intro g hg _ _ hjoins
    exact Except.ok.inj hjoins ▸ hg
  | cons s order ih =>
    intro g hg hrooted hmem hjoins
    rw [List.foldlM_cons, bind_eq_ok_iff] at hjoins
    obtain ⟨next, hstep, hjoins⟩ := hjoins
    have hs : s ∈ all.elements := hmem s (by simp)
    have hrooted' := ((Lineage.joined_of_joinStep_eq_ok hs hrooted hstep).frame hs hrooted).1
    exact ih (hg.joined hrooted hs hstep) hrooted' (fun t ht => hmem t (by simp [ht])) hjoins

/-- **After every run** there is a roof over the graph, whether the run fails or not. -/
theorem Assembled.roofed_resolve {w w' : Workspace} {result : Except SchemaError (List Schema)}
    (hg : Assembled w.graph parsed) (hall : all.Filed Schema.id) (hparsed : ∀ s ∈ all.elements, s ∈ parsed)
    (hroots : ∀ r ∈ roots.elements, r ∈ all.elements) (hrun : (Lineage.resolve all roots).run.run w = (result, w')) :
    Roofed w'.graph all.elements := by
  obtain ⟨joined, hjoined, hjoins⟩ := Lineage.exists_joins_of_resolve hall hroots hrun
  exact (hg.roofed hparsed).foldlM joined (hg.parses.rooted.subset hparsed)
    (fun s hs => (hjoined s hs).mem_elements hroots) hjoins

end Schema

end Schemata
