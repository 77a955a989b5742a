import Schemata.Proofs.Graph.Collecting
import Schemata.Proofs.Graph.Crowned
import Schemata.Proofs.Lineage.Inheritance

/-!
# Root objects above the rest

The root objects of schemas stand above a region of the graph that all of their properties lie in (`Schema.Canopy`):
nothing leads out of the region, so nothing in it leads to a root object, and links in it lead to lower ranks.

It starts as everything that is read besides the roots (`Assembled.exists_canopy`), and it stays when schemas are joined,
because the properties that a root object inherits lie in it already, and because the copies that it may get instead are
new leaves (`Canopy.joined`). Whatever the digests are, so that nothing has to be known of them.
-/

namespace Schemata

open Schemata.Graph (New Crowned RequiredCopy)

variable {g h : Graph} {s t : Schema} {schemas : List Schema} {data : Entries} {x y : Node}

namespace Schema

/-! ### Reading schemas -/

/-- The nodes of a graph that are no root of a schema. -/
def rest (g : Graph) (schemas : List Schema) : Set Node :=
  { x | g.Present x ∧ ∀ s ∈ schemas, x ≠ .property s.root ∧ x ≠ .item (s.rootItem g) }

/-- Schemas have been read into a graph, and nothing leads to their roots. -/
structure Assembled (g : Graph) (schemas : List Schema) : Prop where
  parses : Parses g schemas
  sound : g.Sound
  closed : ∀ {x y : Node}, x ∈ rest g schemas → g.Link x y → y ∈ rest g schemas
  held : ∀ s ∈ schemas, ∀ {x : Node}, g.Link (.item (s.rootItem g)) x → x ∈ rest g schemas
  typeName_eq : ∀ s ∈ schemas, g.typeName (s.rootItem g) = s.id

theorem assembled_empty : Assembled {} [] :=
  ⟨.start {}, Graph.sound_empty, fun hx hlink => ⟨Graph.sound_empty.present hx.1 hlink, by simp⟩, by simp, by simp⟩

/-- The root object of a schema that is read stands above everything else that is new. -/
theorem crowned_parse (hg : g.Sound) (hparse : parse g data = .ok (h, s)) :
    h.Sound ∧ (∀ {x}, New g h x → x ≠ .property s.root ∧ x ≠ .item (s.rootItem h) →
      ∀ {y}, h.Link x y → New g h y ∧ y ≠ .property s.root ∧ y ≠ .item (s.rootItem h)) ∧
    (∀ {y}, h.Link (.item (s.rootItem h)) y → New g h y ∧ y ≠ .property s.root ∧ y ≠ .item (s.rootItem h)) ∧
    h.typeName (s.rootItem h) = s.id := by
  rw [parse, bind_eq_ok_iff] at hparse
  obtain ⟨⟨g₀, t⟩, hread, hparse⟩ := hparse
  obtain ⟨rfl, rfl⟩ := Prod.mk.inj (Except.ok.inj hparse)
  obtain ⟨hplanted, hloose, o, ho, hname⟩ := planted_read hread
  have hsound := hplanted.sound hg
  set crown := (g₀.property t.root).item
  have hroot : g₀.Link (.property t.root) (.item crown) := Graph.link_property_iff.mpr rfl
  have hcrown : New g g₀ (.item crown) := hplanted.new_of_link hloose.new hroot
  -- Nothing new is linked to the root property, and nothing else than that to its object.
  have hbelow : ∀ {x y}, New g g₀ x → x ≠ .property t.root → g₀.Link x y →
      New g g₀ y ∧ y ≠ .property t.root ∧ y ≠ .item crown := by
    intro x y hx hne hlink
    refine ⟨hplanted.new_of_link hx hlink, ?_, ?_⟩
    · rintro rfl
      exact hloose.not_link x hx hlink
    · rintro rfl
      exact hne (hplanted.holder_unique hx hloose.new hlink hroot)
  have hcrowned : Crowned { x | New g g₀ x ∧ x ≠ .property t.root ∧ x ≠ .item crown } t.root crown t.id
      (g₀.dedup t.root sharingLevel) := by
    refine Graph.crowned_dedup ⟨fun hmem => hmem.2.1 rfl, fun hmem => hmem.2.2 rfl, fun hx hlink => ?_, hsound.filed,
      rfl, ⟨o, ho, hname⟩, fun hlink => ?_⟩
    · exact hbelow hx.1 hx.2.1 hlink
    · exact hbelow hcrown (by simp) hlink
  have hnew : ∀ {x}, New g (g₀.dedup t.root sharingLevel) x ↔ New g g₀ x := by
    intro x
    have hpresent := Graph.present_share_iff (x := x) g₀ (.property t.root) sharingLevel
    cases x with
    | item i => exact and_congr_right' hpresent
    | property p => exact and_congr_right' hpresent
  have hitem : t.rootItem (g₀.dedup t.root sharingLevel) = crown := hcrowned.root_item
  rw [hitem]
  refine ⟨hsound.share hloose.new.present _, fun hx hne y hlink => ?_, fun {y} hlink => ?_, ?_⟩
  · have hy := hcrowned.closed ⟨hnew.mp hx, hne⟩ hlink
    exact ⟨hnew.mpr hy.1, hy.2⟩
  · have hy := hcrowned.mem_of_link hlink
    exact ⟨hnew.mpr hy.1, hy.2⟩
  · obtain ⟨c, hc, hcname⟩ := hcrowned.object
    rw [Graph.typeName_of_object? hc, hcname]

/-- One more schema is read. -/
theorem Assembled.parse (hg : Assembled g schemas) (hparse : Schema.parse g data = .ok (h, s)) :
    Assembled h (s :: schemas) := by
  obtain ⟨hgrown, hs, hroot⟩ := hasRoot_of_parse hparse
  obtain ⟨hsound, hclosed, hheld, hname⟩ := crowned_parse hg.sound hparse
  have hrooted := hg.parses.rooted
  have hitem : ∀ t ∈ schemas, t.rootItem h = t.rootItem g :=
    fun t ht => (hrooted.hasRoot t ht).rootItem_eq hgrown.kept
  have hpresent : ∀ t ∈ schemas, g.Present (.property t.root) ∧ g.Present (.item (t.rootItem g)) :=
    fun t ht => ⟨(hrooted.hasRoot t ht).root.property_lt, (hrooted.hasRoot t ht).root.item_lt⟩
  -- Old nodes are no roots of the new schema, and new nodes are no roots of the others.
  have hsroot : ¬ g.Present (.property s.root) ∧ ¬ g.Present (.item (s.rootItem h)) := by
    refine ⟨fun hold => ?_, fun hold => hold.not_new hroot⟩
    have hlink : h.Link (.property s.root) (.item (s.rootItem h)) := Graph.link_property_iff.mpr rfl
    have hitem' := hg.sound.present hold ((hold.link_iff hgrown).mp hlink)
    exact hitem'.not_new hroot
  have hold : ∀ {x}, x ∈ rest g schemas → x ∈ rest h (s :: schemas) := by
    rintro x ⟨hx, hne⟩
    refine ⟨hx.grown hgrown, fun t ht => ?_⟩
    rcases List.mem_cons.mp ht with rfl | ht
    · exact ⟨fun heq => hsroot.1 (heq ▸ hx), fun heq => hsroot.2 (heq ▸ hx)⟩
    · rw [hitem t ht]
      exact hne t ht
  have hnew : ∀ {x}, New g h x → x ≠ .property s.root ∧ x ≠ .item (s.rootItem h) → x ∈ rest h (s :: schemas) := by
    intro x hx hne
    refine ⟨hx.present, fun t ht => ?_⟩
    rcases List.mem_cons.mp ht with rfl | ht
    · exact hne
    · rw [hitem t ht]
      exact ⟨fun heq => (hpresent t ht).1.not_new (heq ▸ hx), fun heq => (hpresent t ht).2.not_new (heq ▸ hx)⟩
  refine ⟨hg.parses.parse hparse, hsound, fun {x y} hx hlink => ?_, fun t ht x hlink => ?_, fun t ht => ?_⟩
  · rcases hx.1.old_or_new (b := g) with hxold | hxnew
    · refine hold (hg.closed ⟨hxold, fun t ht => ?_⟩ ((hxold.link_iff hgrown).mp hlink))
      rw [← hitem t ht]
      exact hx.2 t (by simp [ht])
    · obtain ⟨hy, hne⟩ := hclosed hxnew (hx.2 s (by simp)) hlink
      exact hnew hy hne
  · rcases List.mem_cons.mp ht with rfl | ht
    · obtain ⟨hx, hne⟩ := hheld hlink
      exact hnew hx hne
    · rw [hitem t ht, (hpresent t ht).2.link_iff hgrown] at hlink
      exact hold (hg.held t ht hlink)
  · rcases List.mem_cons.mp ht with rfl | ht
    · exact hname
    · rw [hitem t ht, Graph.typeName, Graph.object?_congr (hgrown.item_eq _ (hpresent t ht).2)]
      exact hg.typeName_eq t ht

/-! ### Joining schemas -/

/-- The root objects of schemas stand above a region: they are not in it, but all of their properties are. Nothing leads
out of the region, and links in it lead to lower ranks. -/
structure Canopy (g : Graph) (schemas : List Schema) (R : Set Node) (rank : Node → Nat) : Prop where
  present : ∀ {x : Node}, x ∈ R → g.Present x
  closed : ∀ {x y : Node}, x ∈ R → g.Link x y → y ∈ R
  lt : ∀ {x y : Node}, x ∈ R → g.Link x y → rank y < rank x
  root_notMem : ∀ s ∈ schemas, .item (s.rootItem g) ∉ R
  held : ∀ s ∈ schemas, ∀ p ∈ (s.rootObject g).properties.elements, .property p ∈ R
  typeName_eq : ∀ s ∈ schemas, g.typeName (s.rootItem g) = s.id

theorem Canopy.subset {given : List Schema} {R : Set Node} {rank : Node → Nat} (hg : Canopy g schemas R rank)
    (hsubset : ∀ s ∈ given, s ∈ schemas) : Canopy g given R rank :=
  ⟨hg.present, hg.closed, hg.lt, fun s hs => hg.root_notMem s (hsubset s hs), fun s hs => hg.held s (hsubset s hs),
    fun s hs => hg.typeName_eq s (hsubset s hs)⟩

theorem Assembled.exists_canopy (hg : Assembled g schemas) : ∃ rank, Canopy g schemas (rest g schemas) rank := by
  obtain ⟨rank, hgraded⟩ := hg.sound.exists_graded
  refine ⟨rank, fun hx => hx.1, hg.closed, fun hx hlink => hgraded.lt hx.1 hlink, fun s hs hmem => (hmem.2 s hs).2 rfl,
    fun s hs p hp => hg.held s hs ?_, hg.typeName_eq⟩
  exact Graph.link_item_property_iff.mpr ⟨_, (hg.parses.rooted.hasRoot s hs).object, hp⟩

end Schema

open Schema (Canopy Rooted)
open Lineage (Joined joinStep)

variable {all : Registry Schema} {R : Set Node} {rank : Node → Nat}

/-- The nodes that a join adds in place of properties that are to be required: copies, and the scalars they hold. -/
def Graph.copies (g h : Graph) : Set Node :=
  { x | ∃ p q, RequiredCopy g h p q ∧ (x = .property q ∨ x = .item (h.property q).item) }

/-- What a root object holds after a join was held by a root object before, or is a required copy of such a property. -/
theorem Lineage.Joined.exists_source (hjoined : Joined all s g h) (hs : s ∈ all.elements) {q : PropertyId}
    (hq : q ∈ (s.rootObject h).properties.elements) :
    ∃ t ∈ all.elements, ∃ p ∈ (t.rootObject g).properties.elements, q = p ∨ RequiredCopy g h p q := by
  have hget : s.property? h (h.propertyName q) = some q := hjoined.hasRoot.filed.get?_of_mem hq
  have hreplaced : ∀ {p : PropertyId} {must : Prop}, Graph.Replaces g h must p q → q = p ∨ RequiredCopy g h p q := by
    intro p must hreplaces
    by_cases hcopy : must ∧ (h.held p).isNull = true
    · exact .inr (hreplaces.copy hcopy.1 hcopy.2)
    · exact .inl (hreplaces.same hcopy)
  cases hown : s.property? g (h.propertyName q) with
  | some p =>
    obtain ⟨q', hq', hreplaces⟩ := hjoined.own _ p hown
    obtain rfl := Option.some.inj (hq'.symm.trans hget)
    exact ⟨s, hs, p, Registry.mem_elements_of_get? hown, hreplaced hreplaces⟩
  | none =>
    by_cases hbase : ∃ t p, Lineage.Extends all s t ∧ t.property? g (h.propertyName q) = some p
    · obtain ⟨t, p, ht, hp⟩ := hbase
      obtain ⟨q', hq', hreplaces⟩ := hjoined.inherited _ t p hown ht hp
      obtain rfl := Option.some.inj (hq'.symm.trans hget)
      exact ⟨t, ht.mem_elements, p, Registry.mem_elements_of_get? hp, hreplaced hreplaces⟩
    · push Not at hbase
      have hnone := hjoined.none _ hown fun t ht => Option.eq_none_iff_forall_ne_some.mpr fun p => hbase t p ht
      exact nomatch hnone.symm.trans hget

/-- What a root object holds after a join is of the region, or a new copy. -/
theorem Lineage.Joined.held (hjoined : Joined all s g h) (hs : s ∈ all.elements)
    (hg : Canopy g all.elements R rank) {q : PropertyId} (hq : q ∈ (s.rootObject h).properties.elements) :
    .property q ∈ R ∪ g.copies h := by
  obtain ⟨t, ht, p, hp, rfl | hcopy⟩ := hjoined.exists_source hs hq
  · exact .inl (hg.held t ht q hp)
  · exact .inr ⟨p, q, hcopy, .inl rfl⟩

/-- The rank of a node that is copied: a property above the scalar that it holds. -/
def Node.copyRank : Node → Nat
  | .property _ => 1
  | .item _ => 0

/-- One join: the region grows by the copies. -/
theorem Schema.Canopy.joined (hg : Canopy g all.elements R rank) (hjoined : Joined all s g h)
    (hrooted : Rooted g all.elements) (hs : s ∈ all.elements) :
    ∃ rank', Canopy h all.elements (R ∪ g.copies h) rank' := by
  classical
  obtain ⟨hrooted', hframe⟩ := hjoined.frame hs hrooted
  have hitem : ∀ t ∈ all.elements, t.rootItem h = t.rootItem g :=
    fun t ht => (hrooted.hasRoot t ht).rootItem_eq hjoined.kept
  have hcopies : ∀ {x}, x ∈ g.copies h → New g h x := by
    rintro x ⟨p, q, hcopy, rfl | rfl⟩
    · exact hcopy.new
    · exact hcopy.new_item
  -- No node of the region is a root object, so none of them has changed.
  have hlink : ∀ {x y}, x ∈ R → h.Link x y → g.Link x y := by
    intro x y hx hxy
    have hpx := hg.present hx
    cases x with
    | property p =>
      rw [Graph.link_property_iff, hjoined.kept.property_eq p hpx, ← Graph.link_property_iff] at hxy
      exact hxy
    | item i =>
      have hne : i ≠ s.rootItem g := fun heq => hg.root_notMem s hs (heq ▸ hx)
      rwa [Graph.Link, Graph.children_item, hjoined.item_eq i hpx hne, ← Graph.children_item] at hxy
  have hleaf : ∀ {p q y}, RequiredCopy g h p q → ¬ h.Link (.item (h.property q).item) y := by
    intro p q y hcopy hxy
    obtain ⟨scalar, -, -, hscalar⟩ := hcopy.held_eq
    rw [Graph.Link, Graph.children_item, show h.item (h.property q).item = _ from hscalar] at hxy
    exact absurd hxy List.not_mem_nil
  refine ⟨fun x => if x ∈ R then rank x else x.copyRank, fun hx => ?_, fun {x y} hx hxy => ?_,
    fun {x y} hx hxy => ?_, fun t ht => ?_, fun t ht p hp => ?_, fun t ht => ?_⟩
  · rcases hx with hx | hx
    · have hpx := hg.present hx
      rename_i x
      cases x with
      | item i => exact hpx.trans_le hjoined.kept.items_le
      | property p => exact hpx.trans_le hjoined.kept.properties_le
    · exact (hcopies hx).present
  · rcases hx with hx | ⟨p, q, hcopy, rfl | rfl⟩
    · exact .inl (hg.closed hx (hlink hx hxy))
    · exact .inr ⟨p, q, hcopy, .inr (Graph.link_property_iff.mp hxy)⟩
    · exact absurd hxy (hleaf hcopy)
  · by_cases hxR : x ∈ R
    · have hyR : y ∈ R := hg.closed hxR (hlink hxR hxy)
      rw [if_pos hxR, if_pos hyR]
      exact hg.lt hxR (hlink hxR hxy)
    · obtain ⟨p, q, hcopy, rfl | rfl⟩ := hx.resolve_left hxR
      · have hy : y = .item (h.property q).item := Graph.link_property_iff.mp hxy
        have hyR : .item (h.property q).item ∉ R := fun hmem => (hg.present hmem).not_new hcopy.new_item
        rw [if_neg hxR, hy, if_neg hyR]
        exact Nat.zero_lt_one
      · exact absurd hxy (hleaf hcopy)
  · rw [hitem t ht]
    rintro (hmem | hmem)
    · exact hg.root_notMem t ht hmem
    · have hpresent : g.Present (.item (t.rootItem g)) := (hrooted.hasRoot t ht).root.item_lt
      exact hpresent.not_new (hcopies hmem)
  · by_cases hts : t = s
    · subst hts
      exact hjoined.held ht hg hp
    · rw [hframe t ht hts] at hp
      exact .inl (hg.held t ht p hp)
  · rw [← hg.typeName_eq t ht, Graph.typeName_of_object? (hrooted'.hasRoot t ht).object,
      Graph.typeName_of_object? (hrooted.hasRoot t ht).object]
    by_cases hts : t = s
    · subst hts
      obtain ⟨properties, heq⟩ := hjoined.rootObject_eq
      rw [heq]
    · rw [hframe t ht hts]

/-- **All joins** keep root objects above the rest. -/
theorem Schema.Canopy.foldlM (order : List Schema) : ∀ {g : Graph} {R : Set Node} {rank : Node → Nat},
    Canopy g all.elements R rank → Rooted g all.elements → (∀ s ∈ order, s ∈ all.elements) →
    order.foldlM (joinStep all) g = .ok h → Rooted h all.elements ∧ ∃ R' rank', Canopy h all.elements R' rank' := by
  induction order with
  | nil =>
    intro g R rank hg hrooted _ hjoins
    obtain rfl := Except.ok.inj hjoins
    exact ⟨hrooted, R, rank, hg⟩
  | cons s order ih =>
    intro g R rank hg hrooted hmem hjoins
    rw [List.foldlM_cons, bind_eq_ok_iff] at hjoins
    obtain ⟨next, hstep, hjoins⟩ := hjoins
    have hs : s ∈ all.elements := hmem s (by simp)
    have hjoined := Lineage.joined_of_joinStep_eq_ok hs hrooted hstep
    obtain ⟨rank', hnext⟩ := hg.joined hjoined hrooted hs
    exact ih hnext (hjoined.frame hs hrooted).1 (fun t ht => hmem t (by simp [ht])) hjoins

end Schemata
