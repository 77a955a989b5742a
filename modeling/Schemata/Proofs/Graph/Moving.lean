import Schemata.Proofs.Graph.Siblings

/-!
# Graphs in which properties are moved

A graph `h` comes from `g` by moves if it differs from it in three things only (`Graph.Moved`): the type names of
objects, the marks of properties, and the items of the properties that are moved, which are those of the properties
that *lead* them (`Graph.lead`).

Nothing else is needed to see that `h` is in good order below the root: its links stay below the root of `g`, they lead
to lower ranks, and objects have the properties that they had. Items are shared now, but only by the properties of one
object (`Moved.lead_eq_of_encloses`).
-/

open scoped List

namespace Schemata

theorem Item.renamed_renamed (item : Item) (name : String) (ρ : String → String) :
    (item.renamed fun _ => name).renamed ρ = item.renamed fun _ => ρ name := by
  cases item <;> rfl

namespace Graph

variable {g h : Graph} {root : PropertyId} {moves : List Move} {m : Move} {i j k : ItemId} {p q : PropertyId}
  {o : ObjectNode} {x y : Node}

/-! ### The property that leads a property -/

/-- The property whose item a property holds after some moves. -/
def lead (moves : List Move) (p : PropertyId) : PropertyId :=
  ((moves.find? fun m => m.holder = p).map Move.source).getD p

theorem lead_of_forall_ne (hp : ∀ m ∈ moves, m.holder ≠ p) : lead moves p = p := by
  have hnone : moves.find? (fun m => m.holder = p) = none :=
    List.find?_eq_none.mpr fun m hm heq => hp m hm (by simpa using heq)
  rw [lead, hnone, Option.map_none, Option.getD_none]

/-- A property is led by itself or is moved. -/
theorem lead_eq_or_exists (moves : List Move) (p : PropertyId) :
    lead moves p = p ∨ ∃ m ∈ moves, m.holder = p ∧ lead moves p = m.source := by
  cases hfind : moves.find? fun m => m.holder = p with
  | none => exact .inl (by rw [lead, hfind, Option.map_none, Option.getD_none])
  | some m =>
    refine .inr ⟨m, List.mem_of_find?_eq_some hfind, by simpa using List.find?_some hfind, ?_⟩
    rw [lead, hfind, Option.map_some, Option.getD_some]

theorem lead_append (hm : ∀ m' ∈ moves, m'.holder ≠ m.holder) (p : PropertyId) :
    lead (moves ++ [m]) p = if p = m.holder then m.source else lead moves p := by
  rw [lead, List.find?_append]
  split_ifs with hp
  · subst hp
    have hnone : moves.find? (fun m' => m'.holder = m.holder) = none :=
      List.find?_eq_none.mpr fun m' hm' heq => hm m' hm' (by simpa using heq)
    simp [hnone]
  · have hne : ¬ m.holder = p := fun heq => hp heq.symm
    simp [hne, lead]

theorem SiblingMoves.sublist {moves' : List Move} (hmoves : SiblingMoves g root moves) (hsub : moves' <+ moves) :
    SiblingMoves g root moves' where
  siblings m hm := hmoves.siblings m (hsub.subset hm)
  name_lt m hm := hmoves.name_lt m (hsub.subset hm)
  fingerprint_eq m hm := hmoves.fingerprint_eq m (hsub.subset hm)
  nodup_holders := hmoves.nodup_holders.sublist (hsub.map _)
  source_ne_holder m hm m' hm' := hmoves.source_ne_holder m (hsub.subset hm) m' (hsub.subset hm')

/-- The root is no property of an object below it. -/
theorem Arboreal.not_link_root (hg : g.Arboreal root) (hi : g.Leads (.property root) (.item i)) :
    ¬ g.Link (.item i) (.property root) :=
  fun hlink => (hg.ranked.of_leads hi).not_leads hlink hi

namespace SiblingMoves

variable (hmoves : SiblingMoves g root moves)

include hmoves

/-- A property that leads another leads itself. -/
theorem lead_lead (p : PropertyId) : lead moves (lead moves p) = lead moves p := by
  rcases lead_eq_or_exists moves p with heq | ⟨m, hm, -, heq⟩
  · rw [heq, heq]
  · rw [heq]
    exact lead_of_forall_ne fun m' hm' h => hmoves.source_ne_holder m hm m' hm' h.symm

/-- A property that leads another is not moved. -/
theorem lead_ne_holder (hm : m ∈ moves) (p : PropertyId) : lead moves p ≠ m.holder := by
  intro heq
  have hself := heq ▸ hmoves.lead_lead p
  cases hfind : moves.find? fun m' => m'.holder = m.holder with
  | none => exact absurd (decide_eq_true rfl) (List.find?_eq_none.mp hfind m hm)
  | some m' =>
    rw [lead, hfind, Option.map_some, Option.getD_some] at hself
    exact hmoves.source_ne_holder m' (List.mem_of_find?_eq_some hfind) m hm hself

theorem name_lead_le (p : PropertyId) : g.propertyName (lead moves p) ≤ g.propertyName p := by
  rcases lead_eq_or_exists moves p with heq | ⟨m, hm, rfl, heq⟩
  · rw [heq]
  · rw [heq]
    exact (hmoves.name_lt m hm).le

theorem fingerprint_lead (p : PropertyId) : (g.held p).fingerprint = (g.held (lead moves p)).fingerprint := by
  rcases lead_eq_or_exists moves p with heq | ⟨m, hm, rfl, heq⟩
  · rw [heq]
  · rw [heq]
    exact hmoves.fingerprint_eq m hm

/-- Below the root, a property is led by a property below the root. -/
theorem leads_lead (hp : g.Leads (.property root) (.property p)) :
    g.Leads (.property root) (.property (lead moves p)) := by
  rcases lead_eq_or_exists moves p with heq | ⟨m, hm, rfl, heq⟩
  · rwa [heq]
  · rw [heq]
    obtain ⟨j, o', hj, ho', -, hsource⟩ := hmoves.siblings m hm
    exact hj.tail (link_item_property_iff.mpr ⟨o', ho', hsource⟩)

variable (hg : g.Arboreal root)

include hg

/-- A property of an object is led by a property of the object. -/
theorem lead_mem (hi : g.Leads (.property root) (.item i)) (ho : g.object? i = some o)
    (hp : p ∈ o.properties.elements) : lead moves p ∈ o.properties.elements := by
  rcases lead_eq_or_exists moves p with heq | ⟨m, hm, rfl, heq⟩
  · rwa [heq]
  · rw [heq]
    obtain ⟨j, o', hj, ho', hholder, hsource⟩ := hmoves.siblings m hm
    obtain rfl : j = i := Node.item.inj (hg.holder_unique hj hi (link_item_property_iff.mpr ⟨o', ho', hholder⟩)
      (link_item_property_iff.mpr ⟨o, ho, hp⟩))
    rwa [Option.some.inj (ho.symm.trans ho')]

/-- The root is not moved. -/
theorem lead_root : lead moves root = root := by
  refine lead_of_forall_ne ?_
  rintro m hm rfl
  obtain ⟨i, o, hi, ho, hholder, -⟩ := hmoves.siblings m hm
  exact hg.not_link_root hi (link_item_property_iff.mpr ⟨o, ho, hholder⟩)

end SiblingMoves

/-! ### What encloses an item -/

/-- To enclose an item is to lead to it from array to element. -/
theorem encloses_iff_reflTransGen :
    g.Encloses i k ↔ Relation.ReflTransGen (fun j e => g.item j = .array e) i k := by
  constructor
  · intro henc
    induction henc with
    | refl i => exact .refl
    | array hi _ ih => exact .head hi ih
  · intro hpath
    induction hpath using Relation.ReflTransGen.head_induction_on with
    | refl => exact .refl k
    | head hi _ ih => exact .array hi ih

/-- In a tree, an item is inside one property only. -/
theorem Arboreal.eq_of_encloses (hg : g.Arboreal root) (hp : g.Leads (.property root) (.property p))
    (hq : g.Leads (.property root) (.property q)) (hpk : g.Encloses (g.property p).item k)
    (hqk : g.Encloses (g.property q).item k) : p = q := by
  have hreach : ∀ {r j}, g.Leads (.property root) (.property r) → g.Encloses (g.property r).item j →
      g.Leads (.property root) (.item j) :=
    fun hr henc => (hr.tail (link_property_iff.mpr rfl)).trans henc.leads
  have hlink : ∀ r, g.Link (.property r) (.item (g.property r).item) := fun r => link_property_iff.mpr rfl
  -- Both ways up from the item meet at each array, because nothing else is linked to what is inside.
  rw [encloses_iff_reflTransGen] at hpk
  induction hpk with
  | refl =>
    rcases Relation.ReflTransGen.cases_tail (encloses_iff_reflTransGen.mp hqk) with heq | ⟨j, hj, harray⟩
    · exact Node.property.inj (hg.holder_unique hp hq (hlink p) (heq ▸ hlink q))
    · have hj := hreach hq (encloses_iff_reflTransGen.mpr hj)
      exact nomatch hg.holder_unique hp hj (hlink p) (link_item_item_iff.mpr harray)
  | @tail j k hpj harray ih =>
    have hj := hreach hp (encloses_iff_reflTransGen.mpr hpj)
    rcases Relation.ReflTransGen.cases_tail (encloses_iff_reflTransGen.mp hqk) with heq | ⟨l, hl, harray'⟩
    · exact nomatch hg.holder_unique hj hq (link_item_item_iff.mpr harray) (heq ▸ hlink q)
    · have hl' := hreach hq (encloses_iff_reflTransGen.mpr hl)
      obtain rfl := Node.item.inj (hg.holder_unique hj hl' (link_item_item_iff.mpr harray)
        (link_item_item_iff.mpr harray'))
      exact ih (encloses_iff_reflTransGen.mpr hl)

/-! ### Moved graphs -/

/-- `h` is `g` after some moves, up to type names and marks. -/
structure Moved (g : Graph) (moves : List Move) (h : Graph) : Prop where
  items_size : h.items.size = g.items.size
  properties_size : h.properties.size = g.properties.size
  item_eq : ∀ i, ∃ name, h.item i = (g.item i).renamed fun _ => name
  property_eq : ∀ p, ∃ item mark, h.property p = { g.property p with item, mark }
  held_eq : ∀ p, (h.property p).item = (g.property (lead moves p)).item

theorem Moved.refl (g : Graph) : Moved g [] g := by
  refine ⟨rfl, rfl, fun i => ⟨g.typeName i, ?_⟩, fun p => ⟨_, _, rfl⟩, fun p => rfl⟩
  cases hitem : g.item i with
  | scalar s => rfl
  | array e => rfl
  | object o => rw [Item.renamed, typeName_of_object? (object?_eq_some_iff.mpr hitem)]

namespace Moved

variable (hmoved : Moved g moves h)

include hmoved

theorem scalar_iff {s : Scalar} : h.item i = .scalar s ↔ g.item i = .scalar s := by
  obtain ⟨name, hitem⟩ := hmoved.item_eq i
  rw [hitem]
  cases g.item i <;> simp [Item.renamed]

theorem array_iff {e : ItemId} : h.item i = .array e ↔ g.item i = .array e := by
  obtain ⟨name, hitem⟩ := hmoved.item_eq i
  rw [hitem]
  cases g.item i <;> simp [Item.renamed]

theorem object?_eq (i : ItemId) : h.object? i = (g.object? i).map fun o => { o with typeName := h.typeName i } := by
  obtain ⟨name, hitem⟩ := hmoved.item_eq i
  rw [typeName, object?, object?, hitem]
  cases g.item i <;> rfl

theorem object?_eq_some (ho : g.object? i = some o) : h.object? i = some { o with typeName := h.typeName i } := by
  rw [hmoved.object?_eq, ho, Option.map_some]

/-- An object has the properties that it had. -/
theorem exists_object? {c : ObjectNode} (hc : h.object? i = some c) :
    ∃ o, g.object? i = some o ∧ o.properties = c.properties ∧ c.typeName = h.typeName i := by
  rw [hmoved.object?_eq] at hc
  cases ho : g.object? i with
  | none =>
    rw [ho] at hc
    exact nomatch hc
  | some o =>
    rw [ho] at hc
    obtain rfl := Option.some.inj hc
    exact ⟨o, rfl, rfl, rfl⟩

theorem propertyName_eq (p : PropertyId) : h.propertyName p = g.propertyName p := by
  obtain ⟨item, mark, hproperty⟩ := hmoved.property_eq p
  rw [propertyName, propertyName, hproperty]

theorem rank_eq (i : ItemId) : h.rank i = g.rank i := by
  obtain ⟨name, hitem⟩ := hmoved.item_eq i
  rw [rank, rank, hitem]
  cases g.item i <;> rfl

theorem encloses_iff : h.Encloses i k ↔ g.Encloses i k :=
  ⟨fun henc => henc.congr fun _ _ => hmoved.array_iff.mp, fun henc => henc.congr fun _ _ => hmoved.array_iff.mpr⟩

/-- The links of items are as they were. -/
theorem link_item_iff : h.Link (.item i) x ↔ g.Link (.item i) x := by
  obtain ⟨name, hitem⟩ := hmoved.item_eq i
  rw [Link, Link, children_item, children_item, hitem]
  cases g.item i <;> rfl

/-- What a graph in which something is moved leads to is still below the root. -/
theorem leads_of_leads (hmoves : SiblingMoves g root moves) (hx : g.Leads (.property root) x) (hxy : h.Leads x y) :
    g.Leads (.property root) y := by
  induction hxy with
  | refl => exact hx
  | @tail y z _ hyz ih =>
    cases y with
    | item i => exact ih.tail (hmoved.link_item_iff.mp hyz)
    | property p =>
      rw [link_property_iff.mp hyz, hmoved.held_eq p]
      exact (hmoves.leads_lead ih).tail (link_property_iff.mpr rfl)

variable (hg : g.Arboreal root) (hmoves : SiblingMoves g root moves)

include hg hmoves

/-- Links lead to lower ranks, also from nodes that nothing leads to any more. -/
theorem ranked (hx : g.Leads (.property root) x) : h.Ranked x := by
  have hbelow : ∀ {y}, h.Leads x y → g.Leads (.property root) y := hmoved.leads_of_leads hmoves hx
  refine ⟨fun {i e} hi harray => ?_, fun {i p} hi hlink => ?_⟩
  · rw [hmoved.rank_eq, hmoved.rank_eq]
    exact hg.ranked.element (hbelow hi) (hmoved.array_iff.mp harray)
  · rw [hmoved.rank_eq, hmoved.rank_eq, hmoved.held_eq p]
    obtain ⟨o, ho, hp⟩ := link_item_property_iff.mp (hmoved.link_item_iff.mp hlink)
    have hlead := hmoves.lead_mem hg (hbelow hi) ho hp
    exact hg.ranked.held (hbelow hi) (link_item_property_iff.mpr ⟨o, ho, hlead⟩)

/-- Two properties below the root with one object inside are led by one property. -/
theorem lead_eq_of_encloses (hp : g.Leads (.property root) (.property p)) (hq : g.Leads (.property root) (.property q))
    (hpk : h.Encloses (h.property p).item k) (hqk : h.Encloses (h.property q).item k) :
    lead moves p = lead moves q := by
  rw [hmoved.encloses_iff, hmoved.held_eq] at hpk hqk
  exact hg.eq_of_encloses (hmoves.leads_lead hp) (hmoves.leads_lead hq) hpk hqk

end Moved

/-! ### Ways to a moved graph -/

/-- One more property is moved. -/
theorem Moved.setProperty (hmoved : Moved g moves h) (hnew : ∀ m' ∈ moves, m'.holder ≠ m.holder)
    (hlt : m.holder.index < g.properties.size) :
    Moved g (moves ++ [m])
      (h.setProperty m.holder { h.property m.holder with item := (g.property m.source).item }) := by
  have hlt' : m.holder.index < h.properties.size := hmoved.properties_size ▸ hlt
  refine ⟨hmoved.items_size, ?_, hmoved.item_eq, fun p => ?_, fun p => ?_⟩
  · rw [size_properties_setProperty, hmoved.properties_size]
  · by_cases hp : p = m.holder
    · obtain ⟨item, mark, hproperty⟩ := hmoved.property_eq m.holder
      rw [hp, property_setProperty_self _ hlt', hproperty]
      exact ⟨_, _, rfl⟩
    · rw [property_setProperty_of_ne _ hp]
      exact hmoved.property_eq p
  · rw [lead_append hnew]
    split_ifs with hp
    · rw [hp, property_setProperty_self _ hlt']
    · rw [property_setProperty_of_ne _ hp]
      exact hmoved.held_eq p

/-- Painting changes names and marks only. -/
theorem Moved.painted {ρ : String → String} {φ : Mark → Mark} {S : Set Node} {h' : Graph} (hmoved : Moved g moves h)
    (hpaint : Painted ρ φ S h h') : Moved g moves h' := by
  refine ⟨hpaint.items_size.trans hmoved.items_size, hpaint.properties_size.trans hmoved.properties_size,
    fun i => ?_, fun p => ?_, fun p => ?_⟩
  · obtain ⟨name, hitem⟩ := hmoved.item_eq i
    by_cases hi : .item i ∈ S
    · exact ⟨ρ name, by rw [hpaint.item_of_mem hi, hitem, Item.renamed_renamed]⟩
    · exact ⟨name, by rw [hpaint.item_of_notMem hi, hitem]⟩
  · obtain ⟨item, mark, hproperty⟩ := hmoved.property_eq p
    by_cases hp : .property p ∈ S
    · exact ⟨item, φ mark, by rw [hpaint.property_of_mem hp, hproperty]⟩
    · exact ⟨item, mark, by rw [hpaint.property_of_notMem hp, hproperty]⟩
  · rw [hpaint.property_item p]
    exact hmoved.held_eq p

/-- Marks can be set at will. -/
theorem Moved.setMark (hmoved : Moved g moves h) (p : PropertyId) (mark : Mark) :
    Moved g moves (h.setProperty p { h.property p with mark }) := by
  refine ⟨hmoved.items_size, ?_, hmoved.item_eq, fun q => ?_, fun q => ?_⟩
  · rw [size_properties_setProperty, hmoved.properties_size]
  · rw [property_setProperty]
    split_ifs with hq
    · obtain ⟨item, _, hproperty⟩ := hmoved.property_eq p
      rw [hq.1]
      exact ⟨item, mark, by rw [hproperty]⟩
    · exact hmoved.property_eq q
  · rw [property_setProperty]
    split_ifs with hq
    · rw [hq.1]
      exact hmoved.held_eq p
    · exact hmoved.held_eq q

end Graph

end Schemata
