import Schemata.Graph.Slice
import Schemata.Proofs.Graph.Spelling
import Schemata.Proofs.Sharing.Unfolding

/-!
# Collecting the objects below a property

The walk that collects objects goes from an object to the objects inside its properties, and files what it finds by type
name. It finds every object below the property it starts from, or it fails because two different objects below it have
one name (`Graph.Collects`). So without a limit it succeeds exactly if the names tell the objects below the property
apart (`exists_objects_eq_ok_iff`).
-/

namespace Schemata.Graph

variable {g : Graph} {root : PropertyId} {i j k : ItemId} {p : PropertyId} {o : ObjectNode} {x : Node}

/-! ### Levels -/

/-- Below a node, links lead to items of lower levels. Objects are not on the lowest level, and no level is higher than
the walks over the graph go down. -/
structure Levelled (g : Graph) (level : ItemId → Nat) (x : Node) : Prop where
  element : ∀ {i e : ItemId}, g.Leads x (.item i) → g.item i = .array e → level e < level i
  held : ∀ {i : ItemId} {p : PropertyId}, g.Leads x (.item i) → g.Link (.item i) (.property p) →
    level (g.property p).item < level i
  pos : ∀ {i : ItemId} {o : ObjectNode}, g.Leads x (.item i) → g.object? i = some o → 0 < level i
  le : ∀ {i : ItemId}, g.Leads x (.item i) → level i ≤ g.depth

/-- Ranks are levels. -/
theorem Ranked.levelled (hx : g.Ranked x) : g.Levelled g.rank x :=
  ⟨hx.element, hx.held, fun _ ho => rank_pos_of_object? ho, fun _ => rank_le_depth g _⟩

variable {level : ItemId → Nat}

theorem Levelled.of_leads {y : Node} (hx : g.Levelled level x) (hxy : g.Leads x y) : g.Levelled level y :=
  ⟨fun hi => hx.element (hxy.trans hi), fun hi => hx.held (hxy.trans hi), fun hi => hx.pos (hxy.trans hi),
    fun hi => hx.le (hxy.trans hi)⟩

/-- The items that an item leads to next: its element, or what its properties hold. -/
def inner (g : Graph) (i : ItemId) : List ItemId :=
  (g.children (.item i)).map g.entry

/-- If items lead to items of lower ranks, there are levels, and no more of them than items. -/
theorem exists_levelled {S : Set ItemId} (rank : ItemId → Nat) {items : Finset ItemId} {bound : Nat}
    (hdown : ∀ {i k : ItemId}, i ∈ S → k ∈ g.inner i → k ∈ S ∧ rank k < rank i)
    (hmem : ∀ {i : ItemId}, i ∈ S → i ∈ items) (hcard : items.card ≤ bound) (hbound : bound ≤ g.depth) :
    ∃ level : ItemId → Nat, (∀ i ∈ S, 0 < level i ∧ level i ≤ bound) ∧
      ∀ {x : Node}, (∀ {i : ItemId}, g.Leads x (.item i) → i ∈ S) → g.Levelled level x := by
  have hacyclic : ∀ i ∈ S, ¬ Relation.TransGen (fun i k => k ∈ g.inner i) i i := by
    intro i hi hcycle
    have hlower : ∀ {k}, Relation.TransGen (fun i k => k ∈ g.inner i) i k → k ∈ S ∧ rank k < rank i := by
      intro k hk
      induction hk with
      | single hk => exact hdown hi hk
      | tail _ hk ih => exact ⟨(hdown ih.1 hk).1, (hdown ih.1 hk).2.trans ih.2⟩
    exact Nat.lt_irrefl _ (hlower hcycle).2
  obtain ⟨level, hgraded, hpos⟩ :=
    Sharing.exists_graded hacyclic (fun hi hk => (hdown hi hk).1) (fun hi _ => hmem hi) hcard
  refine ⟨level, fun i hi => ⟨hpos i (hmem hi), hgraded.le hi⟩, fun hx => ⟨fun hi he => ?_, fun hi hlink => ?_,
    fun hi _ => ?_, fun hi => ?_⟩⟩
  · exact hgraded.lt (hx hi) (List.mem_map.mpr ⟨_, link_item_item_iff.mpr he, rfl⟩)
  · exact hgraded.lt (hx hi) (List.mem_map.mpr ⟨_, hlink, rfl⟩)
  · exact hpos _ (hmem (hx hi))
  · exact (hgraded.le (hx hi)).trans hbound

/-! ### Inside arrays -/

theorem Encloses.level_le (henc : g.Encloses i k) (hi : g.Levelled level (.item i)) : level k ≤ level i := by
  induction henc with
  | refl i => exact le_rfl
  | array hitem _ ih =>
    have hlt := hi.element .refl hitem
    have hle := ih (hi.of_leads (.single (link_item_item_iff.mpr hitem)))
    omega

/-- The walk into arrays ends at an item that is no array. -/
theorem innermostWithin_spec (depth : Nat) : ∀ i, g.Levelled level (.item i) → level i ≤ depth →
    g.Encloses i (g.innermostWithin depth i) ∧ ∀ e, g.item (g.innermostWithin depth i) ≠ .array e := by
  induction depth with
  | zero =>
    intro i hi hlevel
    refine ⟨.refl i, fun e he => ?_⟩
    have hlt := hi.element .refl he
    omega
  | succ depth ih =>
    intro i hi hlevel
    rw [innermostWithin]
    split
    · rename_i e he
      have hlt := hi.element .refl he
      obtain ⟨henc, hnot⟩ := ih e (hi.of_leads (.single (link_item_item_iff.mpr he))) (by omega)
      exact ⟨.array he henc, hnot⟩
    · rename_i hnot
      exact ⟨.refl i, hnot⟩

/-! ### The objects below a node -/

theorem leads_property_item_iff : g.Leads (.property p) (.item k) ↔ g.Leads (.item (g.property p).item) (.item k) := by
  refine ⟨fun hk => ?_, fun hk => .head (link_property_iff.mpr rfl) hk⟩
  rcases Relation.ReflTransGen.cases_head hk with heq | ⟨y, hy, hyk⟩
  · exact nomatch heq
  · rwa [link_property_iff.mp hy] at hyk

/-- The objects that a node leads to. -/
def objectsBelow (g : Graph) (x : Node) : Set ItemId :=
  { k | g.Leads x (.item k) ∧ ∃ o, g.object? k = some o }

theorem objectsBelow_scalar {s : Scalar} (hi : g.item i = .scalar s) : g.objectsBelow (.item i) = ∅ := by
  ext k
  refine ⟨fun ⟨hk, o, ho⟩ => ?_, fun hk => absurd hk (Set.notMem_empty _)⟩
  have hmem : .item k ∈ g.below (.item i) := hk
  rw [below_scalar hi] at hmem
  obtain rfl := Node.item.inj hmem
  exact nomatch hi.symm.trans (object?_eq_some_iff.mp ho)

theorem objectsBelow_array {e : ItemId} (hi : g.item i = .array e) :
    g.objectsBelow (.item i) = g.objectsBelow (.item e) := by
  ext k
  refine and_congr_left fun ⟨o, ho⟩ => ⟨fun hk => ?_, fun hk => .head (link_item_item_iff.mpr hi) hk⟩
  have hmem : .item k ∈ g.below (.item i) := hk
  rw [below_array hi] at hmem
  rcases hmem with heq | hmem
  · obtain rfl := Node.item.inj heq
    exact nomatch hi.symm.trans (object?_eq_some_iff.mp ho)
  · exact hmem

theorem objectsBelow_object (hi : g.object? i = some o) :
    g.objectsBelow (.item i) =
      insert i { k | ∃ p ∈ o.properties.elements, k ∈ g.objectsBelow (.item (g.property p).item) } := by
  ext k
  constructor
  · rintro ⟨hk, c, hc⟩
    have hmem : .item k ∈ g.below (.item i) := hk
    rw [below_object hi] at hmem
    rcases hmem with heq | ⟨p, hp, hpk⟩
    · exact .inl (Node.item.inj heq)
    · exact .inr ⟨p, hp, leads_property_item_iff.mp hpk, c, hc⟩
  · rintro (rfl | ⟨p, hp, hpk, hc⟩)
    · exact ⟨.refl, o, hi⟩
    · exact ⟨.head (link_item_property_iff.mpr ⟨o, hi, hp⟩) (leads_property_item_iff.mpr hpk), hc⟩

theorem objectsBelow_of_encloses (henc : g.Encloses i k) : g.objectsBelow (.item i) = g.objectsBelow (.item k) := by
  induction henc with
  | refl i => rfl
  | array hi _ ih => rw [objectsBelow_array hi, ih]

/-! ### The walk -/

/-- A walk files all objects of a set by type name, or fails because two of them have one name. -/
abbrev Collects (g : Graph) (S : Set ItemId) : Except ItemError (Registry ItemId) → Prop :=
  Registry.Gathers g.typeName (fun name e => ∃ object, e = .duplicateObjectType object name) S

theorem collects_empty (g : Graph) : g.Collects ∅ (.ok ∅) :=
  ⟨Registry.filed_empty _, by simp⟩

/-- The walk finds the objects at and below an item. -/
theorem collects_objectsWithin (levels : Nat) : ∀ (i : ItemId) (offset : Int), offset ≤ 0 → g.Levelled level (.item i) →
    level i ≤ levels → g.Collects (g.objectsBelow (.item i)) (g.objectsWithin levels i offset) := by
  induction levels with
  | zero =>
    intro i offset _ hi hlevel
    cases hitem : g.item i with
    | scalar s =>
      rw [objectsBelow_scalar hitem, objectsWithin]
      exact g.collects_empty
    | array e =>
      have hlt := hi.element .refl hitem
      omega
    | object o =>
      have hpos := hi.pos .refl (object?_eq_some_iff.mpr hitem)
      omega
  | succ levels ih =>
    intro i offset hoffset hi hlevel
    obtain ⟨henc, hnot⟩ := innermostWithin_spec g.depth i hi (hi.le .refl)
    have hinner : g.Levelled level (.item (g.innermost i)) := hi.of_leads henc.leads
    rw [objectsWithin, objectsBelow_of_encloses henc]
    change g.Collects (g.objectsBelow (.item (g.innermost i))) _
    cases hobject : g.object? (g.innermost i) with
    | none =>
      have hscalar : ∃ s, g.item (g.innermost i) = .scalar s := by
        cases hitem : g.item (g.innermost i) with
        | scalar s => exact ⟨s, rfl⟩
        | array e => exact absurd hitem (hnot e)
        | object o => exact nomatch hobject.symm.trans (object?_eq_some_iff.mpr hitem)
      obtain ⟨s, hs⟩ := hscalar
      rw [objectsBelow_scalar hs]
      exact g.collects_empty
    | some o =>
      have hfirst : g.Collects {g.innermost i} (.ok ((∅ : Registry ItemId).insert g.typeName (g.innermost i))) :=
        ⟨(Registry.filed_empty _).put rfl, fun k => List.mem_singleton⟩
      have hle : level (g.innermost i) ≤ level i := henc.level_le hi
      rw [objectsBelow_object hobject, Set.insert_eq]
      simp only [if_pos hoffset]
      refine Registry.gathers_foldlM (fun p => g.objectsBelow (.item (g.property p).item)) _ _ _ (fun _ _ _ => ⟨_, rfl⟩)
        (fun p hp => ?_) _ _ hfirst
      have hlink : g.Link (.item (g.innermost i)) (.property p) := link_item_property_iff.mpr ⟨o, hobject, hp⟩
      have hleads : g.Leads (.item (g.innermost i)) (.item (g.property p).item) :=
        .tail (.single hlink) (link_property_iff.mpr rfl)
      have hlt := hinner.held .refl hlink
      exact ih _ _ (by omega) (hinner.of_leads hleads) (by omega)

theorem objectsBelow_property (p : PropertyId) :
    g.objectsBelow (.property p) = g.objectsBelow (.item (g.property p).item) :=
  Set.ext fun _ => and_congr_left' leads_property_item_iff

/-- **The objects below a property can be collected if and only if their names tell them apart.** -/
theorem exists_objects_eq_ok_iff (hroot : g.Ranked (.property root)) :
    (∃ found, g.objects root (-1) 0 = .ok found) ↔
      ∀ j ∈ g.objectsBelow (.property root), ∀ k ∈ g.objectsBelow (.property root),
        g.typeName j = g.typeName k → j = k := by
  have hlink : g.Link (.property root) (.item (g.property root).item) := link_property_iff.mpr rfl
  have hcollects := collects_objectsWithin g.items.size (g.property root).item 0 le_rfl
    (hroot.of_leads (.single hlink)).levelled (rank_le_depth g _)
  have hobjects : g.objects root (-1) 0 = g.objectsWithin g.items.size (g.property root).item 0 := rfl
  rw [hobjects, objectsBelow_property]
  exact hcollects.exists_eq_ok_iff

end Schemata.Graph
