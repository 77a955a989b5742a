import Schemata.Proofs.Graph.Segments

/-!
# Names of shared objects

After each redirection, in whatever order they are carried out, the objects below a root are named by the objects
above them and by the segments that properties have by then (`Graph.Spelled`). What carries the induction is that the
mark of every property stands behind the name of its object, so that the next rename finds its place. The rule is
kept up for all objects of the tree that was there at first, including those that nothing holds any more.

A rename paints the nodes below the property that is the source of a move, or nothing if the name of its object reads
`common` already. Both are cases of one argument about a set of nodes to paint (`Graph.Region`).
-/

open scoped List

namespace Schemata

open Text (byteLength)

namespace Graph

variable {g h h' : Graph} {root : PropertyId} {done : List Move} {m : Move} {i j k : ItemId} {p q : PropertyId}
  {o c : ObjectNode} {x y : Node}

/-! ### The rule for all names -/

/-- The objects inside the properties of objects below the root have names. -/
def Proper (g : Graph) (root : PropertyId) : Prop :=
  ∀ i o p k c, g.Leads (.property root) (.item i) → g.object? i = some o → p ∈ o.properties.elements →
    g.Encloses (g.property p).item k → g.object? k = some c → c.typeName ≠ ""

/-- All type names can be told by positions. -/
def NamesFit (g : Graph) : Prop :=
  ∀ i, byteLength (g.typeName i) < Mark.last

theorem namesFit_iff : g.NamesFit ↔ ∀ n < g.items.size, byteLength (g.typeName ⟨n⟩) < Mark.last := by
  refine ⟨fun hfit n _ => hfit ⟨n⟩, fun hfit i => ?_⟩
  by_cases hi : i.index < g.items.size
  · exact hfit i.index hi
  · have hname : g.typeName i = "" := by
      rw [typeName, object?, item_of_size_le (Nat.le_of_not_lt hi)]
      rfl
    rw [hname]
    decide

instance (g : Graph) : Decidable g.NamesFit :=
  decidable_of_iff _ namesFit_iff.symm

/-- After some moves, the objects of the tree below the root of `g` are named by the objects above them and by the
segments that properties have by then, and the marks of properties stand behind the names of their objects. -/
structure Spelled (g : Graph) (root : PropertyId) (done : List Move) (h : Graph) : Prop where
  moved : Moved g done h
  root_typeName : ∀ {k : ItemId}, g.Encloses (g.property root).item k → h.typeName k = g.typeName k
  typeName_eq : ∀ {i : ItemId} {o : ObjectNode} {p : PropertyId} {k : ItemId} {c : ObjectNode},
    g.Leads (.property root) (.item i) → g.object? i = some o → p ∈ o.properties.elements →
    h.Encloses (h.property p).item k → h.object? k = some c →
    c.typeName = Naming.join (h.typeName i) "" ++ h.segment o p ∧ c.typeName ≠ ""
  mark_start : ∀ {i : ItemId} {o : ObjectNode} {p : PropertyId}, g.Leads (.property root) (.item i) →
    g.object? i = some o → p ∈ o.properties.elements → (∀ s, g.held p ≠ .scalar s) →
    (h.property p).mark.start = byteLength (Naming.join (h.typeName i) "")
  mark_unused : ∀ {i : ItemId} {o : ObjectNode} {p : PropertyId}, g.Leads (.property root) (.item i) →
    g.object? i = some o → p ∈ o.properties.elements → (∀ s, g.held p ≠ .scalar s) → (∀ m ∈ done, m.holder ≠ p) →
    (h.property p).mark.used = false

/-- Before anything is moved, every property contributes its own name. -/
theorem spelled_nil (hg : g.Arboreal root) (hproper : g.Proper root) : Spelled g root [] g := by
  have hnil : SiblingMoves g root [] := ⟨by simp, by simp, by simp, List.nodup_nil, by simp⟩
  refine ⟨.refl g, fun _ => rfl, fun hi ho hp henc hc => ⟨?_, hproper _ _ _ _ _ hi ho hp henc hc⟩,
    fun hi ho hp hs => ?_, fun hi ho hp hs _ => ?_⟩
  · rw [(hg.named hi ho hp).typeName_eq _ _ henc hc, Naming.join_eq_append, typeName_of_object? ho,
      segment_of_alone (.refl g) hg hnil hi ho hp (fun q _ heq => heq)]
  · rw [(hg.named hi ho hp).mark_eq hs, typeName_of_object? ho]
    rfl
  · rw [(hg.named hi ho hp).mark_eq hs]
    rfl

/-! ### One more move -/

/-- The graph in which a property is moved and nothing is renamed yet. -/
def withMove (g h : Graph) (m : Move) : Graph :=
  h.setProperty m.holder { h.property m.holder with item := (g.property m.source).item }

theorem property_withMove (hp : p ≠ m.holder) : (withMove g h m).property p = h.property p :=
  property_setProperty_of_ne _ hp

theorem encloses_withMove : (withMove g h m).Encloses j k ↔ h.Encloses j k :=
  ⟨fun henc => henc.congr fun _ _ hj => hj, fun henc => henc.congr fun _ _ hj => hj⟩

/-- All that is known when a property of the object `o` is about to be moved. -/
structure Moving (g : Graph) (root : PropertyId) (done : List Move) (m : Move) (h : Graph) (i : ItemId)
    (o : ObjectNode) : Prop where
  arboreal : g.Arboreal root
  moves : SiblingMoves g root (done ++ [m])
  spelled : Spelled g root done h
  leads : g.Leads (.property root) (.item i)
  object?_eq : g.object? i = some o
  holder_mem : m.holder ∈ o.properties.elements
  source_mem : m.source ∈ o.properties.elements

namespace Moving

variable (M : Moving g root done m h i o)

include M

theorem link_holder : g.Link (.item i) (.property m.holder) :=
  link_item_property_iff.mpr ⟨o, M.object?_eq, M.holder_mem⟩

theorem link_source : g.Link (.item i) (.property m.source) :=
  link_item_property_iff.mpr ⟨o, M.object?_eq, M.source_mem⟩

theorem holder_lt : m.holder.index < h.properties.size := by
  rw [M.spelled.moved.properties_size]
  exact M.arboreal.bounded (M.leads.tail M.link_holder)

theorem source_item : (h.property m.source).item = (g.property m.source).item := by
  rw [M.spelled.moved.held_eq, M.moves.lead_source]

theorem leads_source : g.Leads (.property root) (.item (g.property m.source).item) :=
  (M.leads.tail M.link_source).tail (link_property_iff.mpr rfl)

theorem moved : Moved g (done ++ [m]) (withMove g h m) :=
  M.spelled.moved.setProperty M.moves.holder_ne (M.spelled.moved.properties_size ▸ M.holder_lt)

/-- A redirection moves the property, renames what it then holds, and keeps the mark that the rename leaves. -/
theorem redirect_eq {mark : Mark}
    (hrename : (withMove g h m).rename (g.property m.source).item (h.property m.holder).mark = (h', mark)) :
    h.redirect (m.redirection g) = h'.setProperty m.holder { h'.property m.holder with mark } := by
  have hheld : (h.property m.holder).item = (g.property m.holder).item := by
    rw [M.spelled.moved.held_eq, M.moves.lead_holder]
  rw [withMove] at hrename
  rw [Move.redirection, redirect, replaceItem]
  simp only [hheld, if_true, hrename]

/-- If the source holds an object, then the mark of the moved property stands behind the name of its own object. -/
theorem mark_eq (henc : h.Encloses (g.property m.source).item k) (hc : h.object? k = some c) :
    (h.property m.holder).mark.start = byteLength (Naming.join (h.typeName i) "") ∧
      (h.property m.holder).mark.used = false := by
  have hnotScalar : ∀ s, g.held m.holder ≠ .scalar s := by
    intro s hs
    obtain ⟨t, ht⟩ := Item.scalar_of_fingerprint_eq (M.moves.fingerprint_eq m (by simp)) hs
    have hscalar : h.item (g.property m.source).item = .scalar t := M.spelled.moved.scalar_iff.mpr ht
    cases henc with
    | refl => exact nomatch hscalar.symm.trans (object?_eq_some_iff.mp hc)
    | array harray _ => exact nomatch hscalar.symm.trans harray
  exact ⟨M.spelled.mark_start M.leads M.object?_eq M.holder_mem hnotScalar,
    M.spelled.mark_unused M.leads M.object?_eq M.holder_mem hnotScalar M.moves.holder_ne⟩

/-- The object of the moved property is not below what the property comes to hold. -/
theorem not_leads_back : ¬ (withMove g h m).Leads (.item (g.property m.source).item) (.item i) := by
  have hlink : (withMove g h m).Link (.item i) (.property m.source) := M.moved.link_item_iff.mpr M.link_source
  intro hback
  refine (M.moved.ranked M.arboreal M.moves M.leads).not_leads hlink (.head ?_ hback)
  rw [link_property_iff, property_withMove M.moves.source_ne, M.source_item]

/-- Below what the property comes to hold, the property itself is not found. -/
theorem holder_ne_of_leads (hk : (withMove g h m).Leads (.item (g.property m.source).item) (.item k))
    (hlink : g.Link (.item k) (.property p)) : p ≠ m.holder := by
  rintro rfl
  have hk' := M.moved.leads_of_leads M.moves M.leads_source hk
  obtain rfl := Node.item.inj (M.arboreal.holder_unique hk' M.leads hlink M.link_holder)
  exact M.not_leads_back hk

/-- The names below the source start with the name of the object that the source holds. -/
theorem typeName_below (hk : (withMove g h m).Leads (.item (g.property m.source).item) (.item k)) :
    ∀ c, h.object? k = some c → (∃ rest, Mark.IsTail rest ∧
      c.typeName = Naming.join (h.typeName i) "" ++ h.segment o m.source ++ rest) ∧ c.typeName ≠ "" := by
  refine item_induction (fun k henc c hc => ?_) (fun j oj p k hj hoj ih hp henc c hc => ?_) hk
  · obtain ⟨hname, hne⟩ := M.spelled.typeName_eq M.leads M.object?_eq M.source_mem
      (M.source_item.symm ▸ encloses_withMove.mp henc) hc
    exact ⟨⟨"", Mark.isTail_empty, by rw [hname, String.append_empty]⟩, hne⟩
  · have hoj : h.object? j = some oj := hoj
    obtain ⟨⟨rest, hrest, hname⟩, hne⟩ := ih oj hoj
    obtain ⟨o', ho', hproperties, -⟩ := M.spelled.moved.exists_object? hoj
    have hj' := M.moved.leads_of_leads M.moves M.leads_source hj
    have hp' : p ∈ o'.properties.elements := hproperties ▸ hp
    have hph := M.holder_ne_of_leads hj (link_item_property_iff.mpr ⟨o', ho', hp'⟩)
    rw [property_withMove hph, encloses_withMove] at henc
    obtain ⟨hck, hcne⟩ := M.spelled.typeName_eq hj' ho' hp' henc hc
    refine ⟨⟨rest ++ "_" ++ h.segment o' p, hrest.append _, ?_⟩, hcne⟩
    rw [hck, typeName_of_object? hoj, Naming.join_empty hne, hname]
    simp only [String.append_assoc]

/-- The rename of the source can be carried out. -/
theorem walkable (hsegment : Mark.readsCommon (h.segment o m.source) = false) :
    (withMove g h m).Walkable (.spanning (Naming.join (h.typeName i) "") (h.segment o m.source))
      (Mark.spanning (Naming.join (h.typeName i) "") (h.segment o m.source)).respell
      (.item (g.property m.source).item) := by
  have hspans := Mark.spanning_spans (Naming.join (h.typeName i) "") (h.segment o m.source)
  have hbelow : ∀ {x}, (withMove g h m).Leads (.item (g.property m.source).item) x → g.Leads (.property root) x :=
    M.moved.leads_of_leads M.moves M.leads_source
  refine ⟨M.moved.ranked M.arboreal M.moves M.leads_source, fun hp => ?_, fun hj hc => ?_, fun hj hl hjp hlp => ?_,
    fun {j c} hj hc => ?_, fun {j c} hj hc => ?_⟩
  · rw [M.moved.properties_size]
    exact M.arboreal.bounded (hbelow hp)
  · obtain ⟨o', ho', hproperties, -⟩ := M.moved.exists_object? hc
    exact hproperties ▸ (M.arboreal.filed (hbelow hj) ho').nodup_elements
  · exact Node.item.inj (M.arboreal.holder_unique (hbelow hj) (hbelow hl) (M.moved.link_item_iff.mp hjp)
      (M.moved.link_item_iff.mp hlp))
  · obtain ⟨⟨rest, hrest, hname⟩, -⟩ := M.typeName_below hj c hc
    rw [hname, hspans.respell_eq hsegment hrest, hspans.rename?_eq_some hsegment hrest]
  · obtain ⟨⟨rest, hrest, hname⟩, -⟩ := M.typeName_below hj c hc
    rw [hname, hspans.respell_eq hsegment hrest, String.append_assoc]
    exact Mark.rename?_eq_none rfl (Mark.readsCommon_common_append rest)

end Moving

/-! ### Names and marks after a move -/

/-- A set of nodes is fit to be painted when a property is moved: it holds objects whose names start with the name of
the source's object, and with an object the properties of the object and the objects inside of them. -/
structure Region (g : Graph) (root : PropertyId) (done : List Move) (m : Move) (h : Graph) (i : ItemId)
    (o : ObjectNode) (S : Set Node) : Prop where
  outside : .item i ∉ S
  root_outside : ∀ {k : ItemId}, g.Encloses (g.property root).item k → .item k ∉ S
  property_iff : ∀ {j : ItemId} {p : PropertyId}, g.Leads (.property root) (.item j) →
    g.Link (.item j) (.property p) → (.property p ∈ S ↔ .item j ∈ S)
  object_iff : ∀ {j k : ItemId} {p : PropertyId}, g.Leads (.property root) (.item j) →
    g.Link (.item j) (.property p) → lead (done ++ [m]) p ≠ m.source → h.Encloses (h.property p).item k →
    (.item k ∈ S ↔ .item j ∈ S)
  typeName_eq : ∀ {k : ItemId} {c : ObjectNode}, .item k ∈ S → h.object? k = some c →
    Mark.readsCommon (h.segment o m.source) = false ∧ c.typeName ≠ "" ∧
      ∃ rest, Mark.IsTail rest ∧ c.typeName = Naming.join (h.typeName i) "" ++ h.segment o m.source ++ rest

theorem region_empty (g : Graph) (root : PropertyId) (done : List Move) (m : Move) (h : Graph) (i : ItemId)
    (o : ObjectNode) : Region g root done m h i o ∅ :=
  ⟨Set.notMem_empty _, fun _ => Set.notMem_empty _, fun _ _ => Iff.rfl, fun _ _ _ _ => Iff.rfl,
    fun hk => absurd hk (Set.notMem_empty _)⟩

namespace Moving

variable (M : Moving g root done m h i o)

include M

theorem item_withMove (hlead : lead (done ++ [m]) p ≠ m.source) :
    ((withMove g h m).property p).item = (h.property p).item := by
  rw [property_withMove]
  exact fun heq => hlead (by rw [M.moves.lead_step, if_pos heq])

/-- An item below the source is inside the source or inside a property that is below the source as well. -/
theorem exists_property_of_leads (hk : (withMove g h m).Leads (.item (g.property m.source).item) (.item k)) :
    ∃ l q, g.Leads (.property root) (.item l) ∧ g.Link (.item l) (.property q) ∧
      (withMove g h m).Encloses ((withMove g h m).property q).item k ∧
      (q = m.source ∨ (withMove g h m).Leads (.item (g.property m.source).item) (.item l)) := by
  rcases encloses_or_exists_of_leads hk with henc | ⟨l, q, hl, hq, henc⟩
  · rw [entry, ← M.source_item, ← property_withMove M.moves.source_ne] at henc
    exact ⟨i, m.source, M.leads, M.link_source, henc, .inl rfl⟩
  · exact ⟨l, q, M.moved.leads_of_leads M.moves M.leads_source hl, M.moved.link_item_iff.mp hq, henc, .inr hl⟩

/-- Everything below the source can be painted. -/
theorem region_below (hsegment : Mark.readsCommon (h.segment o m.source) = false) :
    Region g root done m h i o ((withMove g h m).below (.item (g.property m.source).item)) := by
  have hbelow : ∀ {x}, (withMove g h m).Leads (.item (g.property m.source).item) x → g.Leads (.property root) x :=
    M.moved.leads_of_leads M.moves M.leads_source
  have hproperty : ∀ {j p}, g.Leads (.property root) (.item j) → g.Link (.item j) (.property p) →
      ((withMove g h m).Leads (.item (g.property m.source).item) (.property p) ↔
        (withMove g h m).Leads (.item (g.property m.source).item) (.item j)) := by
    refine fun hj hp => ⟨fun hlead => ?_, fun hlead => hlead.tail (M.moved.link_item_iff.mpr hp)⟩
    obtain ⟨l, hl, hlp⟩ := exists_holder_of_leads hlead (fun heq => nomatch heq)
    rwa [← M.arboreal.holder_unique (hbelow hl) hj (M.moved.link_item_iff.mp hlp) hp]
  refine ⟨M.not_leads_back, fun {k} henc hk => ?_, hproperty,
    fun {j k p} hj hp hlead henc => ⟨fun hk => ?_, fun hk => ?_⟩, fun {k c} hk hc => ?_⟩
  · -- The root is no property of an object, and what leads a property of an object is one.
    obtain ⟨l, q, hl, hq, henc', -⟩ := M.exists_property_of_leads hk
    obtain ⟨ol, hol, hql⟩ := link_item_property_iff.mp hq
    have hmem := M.moves.lead_mem M.arboreal hl hol hql
    have hroot : lead (done ++ [m]) q = root := by
      refine M.arboreal.eq_of_encloses (M.moves.leads_lead (hl.tail hq)) .refl ?_ henc
      rwa [← M.moved.held_eq, ← M.moved.encloses_iff]
    exact M.arboreal.not_link_root hl (link_item_property_iff.mpr ⟨ol, hol, hroot ▸ hmem⟩)
  · -- The objects above the item are one, because their properties are led by one property.
    have hproperties : ∀ {l q}, g.Leads (.property root) (.item l) → g.Link (.item l) (.property q) →
        (withMove g h m).Encloses ((withMove g h m).property q).item k → lead (done ++ [m]) q = lead (done ++ [m]) p :=
      fun hl hq henc' => M.moved.lead_eq_of_encloses M.arboreal M.moves (hl.tail hq) (hj.tail hp) henc'
        (M.item_withMove hlead ▸ encloses_withMove.mpr henc)
    obtain ⟨l, q, hl, hq, henc', hql⟩ := M.exists_property_of_leads hk
    have hleads := hproperties hl hq henc'
    rcases hql with rfl | hsl
    · rw [M.moves.lead_step m.source, if_neg M.moves.source_ne, M.moves.lead_source] at hleads
      exact absurd hleads.symm hlead
    · obtain ⟨oj, hoj, hpj⟩ := link_item_property_iff.mp hp
      obtain ⟨ol, hol, hql⟩ := link_item_property_iff.mp hq
      have hleadj := M.moves.lead_mem M.arboreal hj hoj hpj
      have hleadl := M.moves.lead_mem M.arboreal hl hol hql
      rw [hleads] at hleadl
      rwa [← M.arboreal.holder_unique hl hj (link_item_property_iff.mpr ⟨ol, hol, hleadl⟩)
        (link_item_property_iff.mpr ⟨oj, hoj, hleadj⟩)]
  · have hitem : (withMove g h m).Leads (.item (g.property m.source).item) (.item (h.property p).item) :=
      ((hproperty hj hp).mpr hk).tail (link_property_iff.mpr (by rw [M.item_withMove hlead]))
    exact hitem.trans (encloses_withMove.mpr henc).leads
  · obtain ⟨⟨rest, hrest, hname⟩, hne⟩ := M.typeName_below hk c hc
    exact ⟨hsegment, hne, rest, hrest, hname⟩

end Moving

theorem item_setMark (g : Graph) (q : PropertyId) (mark : Mark) (p : PropertyId) :
    ((g.setProperty q { g.property q with mark }).property p).item = (g.property p).item := by
  rw [property_setProperty]
  split_ifs with hp
  · rw [hp.1]
  · rfl

theorem propertyName_setMark (g : Graph) (q : PropertyId) (mark : Mark) (p : PropertyId) :
    (g.setProperty q { g.property q with mark }).propertyName p = g.propertyName p := by
  rw [propertyName, property_setProperty]
  split_ifs with hp
  · rw [hp.1]
    rfl
  · rfl

theorem segment_setMark (g : Graph) (q : PropertyId) (mark : Mark) (o : ObjectNode) (p : PropertyId) :
    (g.setProperty q { g.property q with mark }).segment o p = g.segment o p := by
  simp only [segment, sharers, item_setMark, propertyName_setMark]

section Painting

variable {S : Set Node} {mark : Mark}

/-- The name of a painted object. -/
theorem Painted.typeName_of_mem {ρ : String → String} {φ : Mark → Mark} (hpaint : Painted ρ φ S h h')
    (hc : h.object? k = some c) (hk : .item k ∈ S) : h'.typeName k = ρ c.typeName := by
  have hitem : h'.object? k = some { c with typeName := ρ c.typeName } := by
    rw [object?_eq_some_iff, hpaint.item_of_mem hk, object?_eq_some_iff.mp hc, Item.renamed]
  rw [typeName_of_object? hitem]

theorem Painted.typeName_of_notMem {ρ : String → String} {φ : Mark → Mark} (hpaint : Painted ρ φ S h h')
    (hk : .item k ∉ S) : h'.typeName k = h.typeName k := by
  rw [typeName, typeName, object?_congr (hpaint.item_of_notMem hk)]

variable (M : Moving g root done m h i o) (hregion : Region g root done m h i o S)
  (hpaint : Painted (Mark.spanning (Naming.join (h.typeName i) "") (h.segment o m.source)).respell
    (·.follow (.spanning (Naming.join (h.typeName i) "") (h.segment o m.source))) S (withMove g h m) h')

include hregion hpaint

/-- How a painted object is named. -/
theorem Region.typeName_painted {rest : String} (hc : h.object? k = some c) (hk : .item k ∈ S)
    (hrest : Mark.IsTail rest)
    (hname : c.typeName = Naming.join (h.typeName i) "" ++ h.segment o m.source ++ rest) :
    h'.typeName k = Naming.join (h.typeName i) "" ++ Mark.common ++ rest := by
  have hspelled := hpaint.typeName_of_mem (h := withMove g h m) hc hk
  rw [hspelled, hname, (Mark.spanning_spans _ _).respell_eq (hregion.typeName_eq hk hc).1 hrest]

include M

/-- The rule for names holds again when the names below a moved property are painted. -/
theorem Moving.typeName_eq_painted
    (hsource : ∀ k c, h.Encloses (g.property m.source).item k → h.object? k = some c →
      h'.typeName k = Naming.join (h.typeName i) "" ++ Mark.shared (h.segment o m.source))
    {oj : ObjectNode} (hj : g.Leads (.property root) (.item j)) (hoj : g.object? j = some oj)
    (hp : p ∈ oj.properties.elements) (henc : h'.Encloses (h'.property p).item k) (hc : h'.object? k = some c) :
    h'.typeName k = Naming.join (h'.typeName j) "" ++ h'.segment oj p ∧ h'.typeName k ≠ "" := by
  have hmoved : Moved g (done ++ [m]) h' := M.moved.painted hpaint
  have hlink := link_item_property_iff.mpr ⟨oj, hoj, hp⟩
  have hkeep : ∀ {l}, .item l ∉ S → h'.typeName l = h.typeName l :=
    fun hl => hpaint.typeName_of_notMem (h := withMove g h m) hl
  have hobject : ∃ c₀, h.object? k = some c₀ := by
    obtain ⟨c₁, hc₁, -⟩ := hmoved.exists_object? hc
    exact ⟨_, M.spelled.moved.object?_eq_some hc₁⟩
  obtain ⟨c₀, hc₀⟩ := hobject
  rw [hmoved.held_eq, hmoved.encloses_iff, ← M.spelled.moved.encloses_iff] at henc
  by_cases hlead : lead (done ++ [m]) p = m.source
  · -- The property shares its item with the source now, so its object is the one that the move is about.
    have hmem := M.moves.lead_mem M.arboreal hj hoj hp
    rw [hlead] at hmem henc
    obtain rfl : j = i := Node.item.inj (M.arboreal.holder_unique hj M.leads
      (link_item_property_iff.mpr ⟨oj, hoj, hmem⟩) M.link_source)
    obtain rfl : oj = o := Option.some.inj (hoj.symm.trans M.object?_eq)
    rw [hsource k c₀ henc hc₀, hkeep hregion.outside,
      segment_move_of_lead_eq M.spelled.moved hmoved M.arboreal M.moves hj hoj hp M.holder_mem M.source_mem hlead]
    exact ⟨rfl, fun hempty => Mark.shared_ne_empty _ (String.append_eq_empty_iff.mp hempty).2⟩
  · have henc' : h.Encloses (h.property p).item k := by
      rwa [← M.item_withMove hlead, M.moved.held_eq]
    obtain ⟨hname, hne⟩ := M.spelled.typeName_eq hj hoj hp henc' hc₀
    rw [segment_move_of_lead_ne M.spelled.moved hmoved M.arboreal M.moves hj hoj hp hlead]
    by_cases hjS : .item j ∈ S
    · -- Both names are spelled anew, and what follows the segment of the source stays.
      have hkS := (hregion.object_iff hj hlink hlead henc').mpr hjS
      have hoj' := M.spelled.moved.object?_eq_some hoj
      obtain ⟨-, hnej, rest, hrest, hnamej⟩ := hregion.typeName_eq hjS hoj'
      have hspelledj := hregion.typeName_painted hpaint hoj' hjS hrest hnamej
      have hspelledk := hregion.typeName_painted hpaint hc₀ hkS (hrest.append (h.segment oj p)) (by
        rw [hname, Naming.join_empty hnej, hnamej]
        simp only [String.append_assoc])
      have hnej' : h'.typeName j ≠ "" := hspelledj ▸ Naming.append_common_ne_empty _ _
      refine ⟨?_, ?_⟩
      · rw [Naming.join_empty hnej', hspelledk, hspelledj]
        simp only [String.append_assoc]
      · exact hspelledk ▸ Naming.append_common_ne_empty _ _
    · -- Neither object is in the region, and both keep their names.
      have hkS : .item k ∉ S := fun hkS => hjS ((hregion.object_iff hj hlink hlead henc').mp hkS)
      rw [hkeep hkS, hkeep hjS, typeName_of_object? hc₀]
      exact ⟨hname, hne⟩

/-- The marks of the properties that are not moved stand behind the names of their objects again. -/
theorem Moving.mark_start_painted (hfit : h'.NamesFit) {oj : ObjectNode} (hj : g.Leads (.property root) (.item j))
    (hoj : g.object? j = some oj) (hp : p ∈ oj.properties.elements) (hph : p ≠ m.holder)
    (hnotScalar : ∀ s, g.held p ≠ .scalar s) :
    (h'.property p).mark.start = byteLength (Naming.join (h'.typeName j) "") := by
  have hstart := M.spelled.mark_start hj hoj hp hnotScalar
  have hiff := hregion.property_iff hj (link_item_property_iff.mpr ⟨oj, hoj, hp⟩)
  by_cases hjS : .item j ∈ S
  · have hoj' := M.spelled.moved.object?_eq_some hoj
    obtain ⟨-, hnej, rest, hrest, hnamej⟩ := hregion.typeName_eq hjS hoj'
    have hspelledj := hregion.typeName_painted hpaint hoj' hjS hrest hnamej
    have hnej' : h'.typeName j ≠ "" := hspelledj ▸ Naming.append_common_ne_empty _ _
    have hassoc : ∀ front : String, front ++ rest ++ "_" = front ++ (rest ++ "_") := fun _ => String.append_assoc
    have hlt := hfit j
    rw [hpaint.property_of_mem (hiff.mpr hjS), property_withMove hph, Naming.join_empty hnej', hspelledj,
      hassoc]
    refine (Mark.spanning_spans _ _).start_follow ?_ ?_
    · rw [hstart, Naming.join_empty hnej, hnamej, hassoc]
    · rw [← hassoc, ← hspelledj, Text.byteLength_append]
      exact hlt
  · rw [hpaint.property_of_notMem (fun hpS => hjS (hiff.mp hpS)), property_withMove hph,
      hpaint.typeName_of_notMem (h := withMove g h m) hjS]
    exact hstart

/-- The rule holds again when the names below a moved property are painted and its mark is set. -/
theorem Moving.spelled_painted
    (hsource : ∀ k c, h.Encloses (g.property m.source).item k → h.object? k = some c →
      h'.typeName k = Naming.join (h.typeName i) "" ++ Mark.shared (h.segment o m.source))
    (hmark : (∀ s, g.held m.holder ≠ .scalar s) → mark.start = byteLength (Naming.join (h.typeName i) ""))
    (hfit : h'.NamesFit) :
    Spelled g root (done ++ [m]) (h'.setProperty m.holder { h'.property m.holder with mark }) := by
  have hlt : m.holder.index < h'.properties.size := by
    rw [hpaint.properties_size, M.moved.properties_size]
    exact M.arboreal.bounded (M.leads.tail M.link_holder)
  refine ⟨(M.moved.painted hpaint).setMark m.holder mark, fun {k} henc => ?_,
    fun {j oj p k c} hj hoj hp henc hc => ?_, fun {j oj p} hj hoj hp hnotScalar => ?_,
    fun {j oj p} hj hoj hp hnotScalar hholders => ?_⟩
  · rw [← M.spelled.root_typeName henc]
    exact hpaint.typeName_of_notMem (h := withMove g h m) (hregion.root_outside henc)
  · rw [segment_setMark, ← typeName_of_object? hc]
    rw [item_setMark] at henc
    exact M.typeName_eq_painted hregion hpaint hsource hj hoj hp (henc.congr fun _ _ hitem => hitem) hc
  · by_cases hph : p = m.holder
    · subst hph
      obtain rfl : j = i := Node.item.inj (M.arboreal.holder_unique hj M.leads
        (link_item_property_iff.mpr ⟨oj, hoj, hp⟩) M.link_holder)
      have hunder : h'.typeName j = h.typeName j := hpaint.typeName_of_notMem (h := withMove g h m) hregion.outside
      rw [property_setProperty_self _ hlt]
      exact (hmark hnotScalar).trans (by rw [← hunder]; rfl)
    · rw [property_setProperty_of_ne _ hph]
      exact M.mark_start_painted hregion hpaint hfit hj hoj hp hph hnotScalar
  · have hph : p ≠ m.holder := fun heq => hholders m (by simp) heq.symm
    have hunused := M.spelled.mark_unused hj hoj hp hnotScalar (fun m' hm' => hholders m' (by simp [hm']))
    rw [property_setProperty_of_ne _ hph]
    by_cases hpS : .property p ∈ S
    · rw [hpaint.property_of_mem hpS, property_withMove hph]
      exact hunused
    · rw [hpaint.property_of_notMem hpS, property_withMove hph]
      exact hunused

end Painting

/-- **One more move** keeps the rule. -/
theorem Moving.spelled_redirect (M : Moving g root done m h i o) (hfit : (h.redirect (m.redirection g)).NamesFit) :
    Spelled g root (done ++ [m]) (h.redirect (m.redirection g)) := by
  by_cases hpaints : Mark.readsCommon (h.segment o m.source) = false ∧
      ∃ k c, h.Encloses (g.property m.source).item k ∧ h.object? k = some c
  · obtain ⟨hsegment, k₀, c₀, henc₀, hc₀⟩ := hpaints
    obtain ⟨hstart, hunused⟩ := M.mark_eq henc₀ hc₀
    have hname₀ := (M.spelled.typeName_eq M.leads M.object?_eq M.source_mem (M.source_item.symm ▸ henc₀) hc₀).1
    obtain ⟨h', hrename, hpaint⟩ := painted_rename (encloses_withMove.mpr henc₀) hc₀ hname₀ hunused hstart hsegment
      (M.walkable hsegment)
    rw [M.redirect_eq hrename] at hfit ⊢
    have hregion := M.region_below hsegment
    refine M.spelled_painted hregion hpaint (fun k c henc hc => ?_) (fun _ => rfl) hfit
    have hname := (M.spelled.typeName_eq M.leads M.object?_eq M.source_mem (M.source_item.symm ▸ henc) hc).1
    rw [hregion.typeName_painted hpaint hc (encloses_withMove.mpr henc).leads Mark.isTail_empty
      (by rw [hname, String.append_empty]), String.append_empty, Mark.shared, if_neg (by simp [hsegment])]
  · -- There is nothing to rename: the name reads `common` already, or the source holds no object.
    have hreads : ∀ k c, h.Encloses (g.property m.source).item k → h.object? k = some c →
        Mark.readsCommon (h.segment o m.source) := fun k c henc hc => by
      by_contra hnot
      exact hpaints ⟨by simpa using hnot, k, c, henc, hc⟩
    have hrename : (withMove g h m).rename (g.property m.source).item (h.property m.holder).mark =
        (withMove g h m, (h.property m.holder).mark) := by
      refine renameWithin_eq_self _ fun k c henc hc => ?_
      have henc := encloses_withMove.mp henc
      rw [(M.spelled.typeName_eq M.leads M.object?_eq M.source_mem (M.source_item.symm ▸ henc) hc).1]
      exact Mark.rename?_eq_none (M.mark_eq henc hc).1 (hreads k c henc hc)
    rw [M.redirect_eq hrename] at hfit ⊢
    refine M.spelled_painted (region_empty g root done m h i o) (.refl _ _ _) (fun k c henc hc => ?_)
      (M.spelled.mark_start M.leads M.object?_eq M.holder_mem) hfit
    rw [Mark.shared, if_pos (hreads k c henc hc)]
    have hname := (M.spelled.typeName_eq M.leads M.object?_eq M.source_mem (M.source_item.symm ▸ henc) hc).1
    exact (typeName_of_object? hc).trans hname

/-! ### All moves -/

/-- Carry some moves out. -/
def carryOut (g : Graph) (moves : List Move) : Graph :=
  (moves.map (Move.redirection g)).foldl redirect g

theorem carryOut_append_singleton (g : Graph) (done : List Move) (m : Move) :
    g.carryOut (done ++ [m]) = (g.carryOut done).redirect (m.redirection g) := by
  rw [carryOut, List.map_append, List.foldl_append]
  rfl

/-- **The rule holds after any moves**, as long as the names fit. -/
theorem spelled_carryOut (hg : g.Arboreal root) (hproper : g.Proper root) (moves : List Move) :
    SiblingMoves g root moves → (∀ done, done <+: moves → (g.carryOut done).NamesFit) →
      Spelled g root moves (g.carryOut moves) := by
  induction moves using List.reverseRecOn with
  | nil => exact fun _ _ => spelled_nil hg hproper
  | append_singleton done m ih =>
    intro hmoves hfit
    have hspelled := ih (hmoves.sublist (List.sublist_append_left done [m]))
      fun done' hdone' => hfit done' (hdone'.trans (List.prefix_append done [m]))
    obtain ⟨i, o, hi, ho, hholder, hsource⟩ := hmoves.siblings m (by simp)
    have hfit' := hfit (done ++ [m]) List.prefix_rfl
    rw [carryOut_append_singleton] at hfit' ⊢
    exact Moving.spelled_redirect ⟨hg, hmoves, hspelled, hi, ho, hholder, hsource⟩ hfit'

/-- While the equal subtrees below a root are shared, all names can be told by positions. -/
def FitsWhileSharing (g : Graph) (root : PropertyId) : Prop :=
  ∀ steps, steps <+: linked.plan g (.property root) Schema.sharingLevel → (steps.foldl redirect g).NamesFit

/-- To share what the plan says is to carry its moves out. -/
theorem dedup_eq_carryOut {moves : List Move}
    (hplan : linked.plan g (.property root) Schema.sharingLevel = moves.map (Move.redirection g)) :
    g.dedup root Schema.sharingLevel = g.carryOut moves := by
  rw [carryOut, ← hplan]
  rfl

theorem spelled_dedup {moves : List Move} (hg : g.Arboreal root) (hproper : g.Proper root)
    (hfit : g.FitsWhileSharing root) (hmoves : SiblingMoves g root moves)
    (hplan : linked.plan g (.property root) Schema.sharingLevel = moves.map (Move.redirection g)) :
    Spelled g root moves (g.dedup root Schema.sharingLevel) := by
  rw [dedup_eq_carryOut hplan]
  refine spelled_carryOut hg hproper moves hmoves fun done hdone => hfit _ ?_
  rw [hplan]
  exact hdone.map (Move.redirection g)

/-- The rule holds of what sharing comes to. -/
theorem exists_spelled_dedup (hg : g.Arboreal root) (hproper : g.Proper root)
    (hdiscerning : linked.Discerning g (.property root)) (hfit : g.FitsWhileSharing root) :
    ∃ moves, SiblingMoves g root moves ∧ Spelled g root moves (g.dedup root Schema.sharingLevel) := by
  obtain ⟨moves, hmoves, hplan⟩ := hg.exists_moves hdiscerning
  exact ⟨moves, hmoves, spelled_dedup hg hproper hfit hmoves hplan⟩

/-! ### What can be reached in the end -/

namespace Spelled

variable {moves : List Move} (hspelled : Spelled g root moves h) (hmoves : SiblingMoves g root moves)

include hspelled hmoves

theorem leads_of_leads (hx : h.Leads (.property root) x) : g.Leads (.property root) x :=
  hspelled.moved.leads_of_leads hmoves .refl hx

/-- What is inside a property of an object is named by the object and by the segment of the property. -/
theorem typeName_eq_join (hi : h.Leads (.property root) (.item i)) (ho : h.object? i = some o)
    (hp : p ∈ o.properties.elements) (henc : h.Encloses (h.property p).item k) (hc : h.object? k = some c) :
    c.typeName = Naming.join o.typeName (h.segment o p) ∧ c.typeName ≠ "" := by
  obtain ⟨o', ho', hproperties, hname⟩ := hspelled.moved.exists_object? ho
  have hsegment : h.segment o p = h.segment o' p := by rw [segment, segment, sharers, sharers, hproperties]
  rw [Naming.join_eq_append, hname, hsegment]
  exact hspelled.typeName_eq (hspelled.leads_of_leads hmoves hi) ho' (hproperties ▸ hp) henc hc

variable (hg : g.Arboreal root)

include hg

theorem root_item : (h.property root).item = (g.property root).item := by
  rw [hspelled.moved.held_eq, hmoves.lead_root hg]

/-- Objects keep having names, if the topmost ones have. -/
theorem typeName_ne_empty
    (htop : ∀ k c, g.Encloses (g.property root).item k → g.object? k = some c → c.typeName ≠ "")
    (hi : h.Leads (.property root) (.item i)) (ho : h.object? i = some o) : o.typeName ≠ "" := by
  rcases encloses_or_exists_of_leads hi with henc | ⟨j, p, hj, hjp, henc⟩
  · rw [entry, hspelled.root_item hmoves hg, hspelled.moved.encloses_iff] at henc
    obtain ⟨o', ho', -, hname⟩ := hspelled.moved.exists_object? ho
    rw [hname, hspelled.root_typeName henc, typeName_of_object? ho']
    exact htop i o' henc ho'
  · obtain ⟨oj, hoj, hp⟩ := link_item_property_iff.mp hjp
    exact (hspelled.typeName_eq_join hmoves hj hoj hp henc ho).2

theorem filed (hi : h.Leads (.property root) (.item i)) (ho : h.object? i = some o) :
    o.properties.Filed h.propertyName := by
  obtain ⟨o', ho', hproperties, -⟩ := hspelled.moved.exists_object? ho
  rw [funext hspelled.moved.propertyName_eq, ← hproperties]
  exact hg.filed (hspelled.leads_of_leads hmoves hi) ho'

end Spelled

end Graph

end Schemata
