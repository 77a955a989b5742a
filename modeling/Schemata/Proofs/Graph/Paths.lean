import Schemata.Proofs.Graph.Collecting
import Schemata.Proofs.Graph.Redirecting

/-!
# Paths of property names

A path of names leads from a property to a property below it, through the objects on the way and into their arrays
(`Graph.propertyAt?`). What is at the end of a path can be read off the tree that the property unfolds to: in two
sound graphs, properties that unfold alike have the same paths, and what the paths lead to unfolds alike
(`Sound.exists_propertyAt?`).

After moves a path may lead to another property than before. But that property is found in the graph before the moves
as well, by a path of the same length: each name on the way is replaced by the name of a property beside it
(`Moved.exists_propertyAt?`).
-/

namespace Schemata

/-- An array is told from the other items by its fingerprint. -/
theorem Item.array_of_fingerprint_eq {x y : Item} {e : ItemId} (hxy : x.fingerprint = y.fingerprint)
    (hx : x = .array e) : ∃ e', y = .array e' := by
  subst hx
  cases y with
  | scalar s => exact nomatch scalar_of_fingerprint_eq hxy.symm rfl
  | array e' => exact ⟨e', rfl⟩
  | object o => exact absurd hxy (by simp [fingerprint])

/-- An object is told from the other items by its fingerprint. -/
theorem Item.object_of_fingerprint_eq {x y : Item} {o : ObjectNode} (hxy : x.fingerprint = y.fingerprint)
    (hx : x = .object o) : ∃ o', y = .object o' := by
  subst hx
  cases y with
  | scalar s => exact nomatch scalar_of_fingerprint_eq hxy.symm rfl
  | array e => exact absurd hxy (by simp [fingerprint])
  | object o' => exact ⟨o', rfl⟩

namespace Graph

variable {g h : Graph} {root p q : PropertyId} {i j k : ItemId} {x y : Node} {path : List String} {name : String}

/-! ### Paths -/

/-- The property with a name of the object inside a property. -/
def child? (g : Graph) (p : PropertyId) (name : String) : Option PropertyId :=
  (g.object? (g.innermost (g.property p).item)).bind fun o => o.properties.get? name

/-- The property at the end of a path of names. -/
def propertyAt? (g : Graph) (p : PropertyId) (path : List String) : Option PropertyId :=
  path.foldlM g.child? p

/-- The item at the end of a path of names, inside of arrays. -/
def itemAt? (g : Graph) (p : PropertyId) (path : List String) : Option Item :=
  (g.propertyAt? p path).map fun q => g.item (g.innermost (g.property q).item)

theorem child?_eq_some_iff :
    g.child? p name = some q ↔
      ∃ o, g.object? (g.innermost (g.property p).item) = some o ∧ o.properties.get? name = some q := by
  rw [child?, Option.bind_eq_some_iff]

theorem propertyAt?_singleton (p : PropertyId) (name : String) : g.propertyAt? p [name] = g.child? p name := by
  simp [propertyAt?]

theorem propertyAt?_concat :
    g.propertyAt? p (path ++ [name]) = some q ↔ ∃ r, g.propertyAt? p path = some r ∧ g.child? r name = some q := by
  rw [propertyAt?, List.foldlM_append, Option.bind_eq_bind, Option.bind_eq_some_iff]
  simp [propertyAt?]

theorem itemAt?_eq_some_iff {item : Item} :
    g.itemAt? p path = some item ↔
      ∃ q, g.propertyAt? p path = some q ∧ g.item (g.innermost (g.property q).item) = item := by
  rw [itemAt?, Option.map_eq_some_iff]

/-! ### Inside arrays -/

/-- The arrays around an item end at one item. -/
theorem Encloses.eq_of_not_array (hj : g.Encloses i j) (hjnot : ∀ e, g.item j ≠ .array e) (hk : g.Encloses i k)
    (hknot : ∀ e, g.item k ≠ .array e) : j = k := by
  induction hj with
  | refl i =>
    cases hk with
    | refl => rfl
    | array hi _ => exact absurd hi (hjnot _)
  | array hi _ ih =>
    cases hk with
    | refl => exact absurd hi (hknot _)
    | array hi' hk =>
      obtain rfl := Item.array.inj (hi.symm.trans hi')
      exact ih hjnot hk

namespace Sound

variable (hg : g.Sound)

include hg

/-- The items of a sound graph have levels, none of them the lowest. -/
theorem exists_levelled : ∃ level : ItemId → Nat, (∀ {i : ItemId}, g.Present (.item i) → 0 < level i) ∧
    ∀ {x : Node}, g.Present x → g.Levelled level x := by
  obtain ⟨rank, hgraded⟩ := hg.exists_graded
  have hdown : ∀ {i k}, g.Present (.item i) → k ∈ g.inner i →
      g.Present (.item k) ∧ rank (.item k) < rank (.item i) := by
    intro i k hi hk
    obtain ⟨y, hy, rfl⟩ := List.mem_map.mp hk
    have hpresent := hg.present hi hy
    have hlt := hgraded.lt hi hy
    cases y with
    | item e => exact ⟨hpresent, hlt⟩
    | property p =>
      have hheld : g.Link (.property p) (.item (g.property p).item) := link_property_iff.mpr rfl
      exact ⟨hg.present hpresent hheld, (hgraded.lt hpresent hheld).trans hlt⟩
  have hmem : ∀ {i}, g.Present (.item i) → i ∈ (Finset.range g.items.size).image ItemId.mk :=
    fun {i} hi => Finset.mem_image.mpr ⟨i.index, Finset.mem_range.mpr hi, rfl⟩
  obtain ⟨level, hbounds, hlevelled⟩ := Graph.exists_levelled (S := { i | g.Present (.item i) })
    (fun i => rank (.item i)) hdown hmem (Finset.card_image_le.trans (Finset.card_range _).le) le_rfl
  exact ⟨level, fun hi => (hbounds _ hi).1, fun hx => hlevelled fun hi => hg.present_of_leads hx hi⟩

theorem encloses_innermost (hi : g.Present (.item i)) :
    g.Encloses i (g.innermost i) ∧ ∀ e, g.item (g.innermost i) ≠ .array e := by
  obtain ⟨level, -, hlevel⟩ := hg.exists_levelled
  exact innermostWithin_spec g.depth i (hlevel hi) ((hlevel hi).le .refl)

theorem present_held (hp : g.Present (.property p)) : g.Present (.item (g.property p).item) :=
  hg.present hp (link_property_iff.mpr rfl)

theorem leads_innermost (hp : g.Present (.property p)) :
    g.Leads (.property p) (.item (g.innermost (g.property p).item)) :=
  .head (link_property_iff.mpr rfl) (hg.encloses_innermost (hg.present_held hp)).1.leads

theorem present_innermost (hp : g.Present (.property p)) : g.Present (.item (g.innermost (g.property p).item)) :=
  hg.present_of_leads hp (hg.leads_innermost hp)

theorem innermost_array {e : ItemId} (hi : g.Present (.item i)) (hitem : g.item i = .array e) :
    g.innermost i = g.innermost e := by
  have he : g.Present (.item e) := hg.present hi (link_item_item_iff.mpr hitem)
  obtain ⟨henc, hnot⟩ := hg.encloses_innermost he
  obtain ⟨henc', hnot'⟩ := hg.encloses_innermost hi
  exact henc'.eq_of_not_array hnot' (.array hitem henc) hnot

theorem innermost_of_not_array (hi : g.Present (.item i)) (hnot : ∀ e, g.item i ≠ .array e) : g.innermost i = i := by
  obtain ⟨henc, hnot'⟩ := hg.encloses_innermost hi
  exact henc.eq_of_not_array hnot' (.refl i) hnot

theorem present_child? (hp : g.Present (.property p)) (hq : g.child? p name = some q) : g.Present (.property q) := by
  obtain ⟨o, ho, hq⟩ := child?_eq_some_iff.mp hq
  exact hg.present (hg.present_innermost hp) (link_item_property_iff.mpr ⟨o, ho, Registry.mem_elements_of_get? hq⟩)

theorem present_propertyAt? (hp : g.Present (.property p)) (hq : g.propertyAt? p path = some q) :
    g.Present (.property q) := by
  induction path using List.reverseRecOn generalizing q with
  | nil =>
    obtain rfl := Option.some.inj hq
    exact hp
  | append_singleton path name ih =>
    obtain ⟨r, hr, hq⟩ := propertyAt?_concat.mp hq
    exact hg.present_child? (ih hr) hq

/-! ### Nodes that unfold alike -/

theorem pattern_eq (hx : g.Present x) :
    linked.pattern g x = .node (g.fingerprint x) ((g.children x).map (linked.pattern g)) := by
  obtain ⟨rank, hgraded⟩ := hg.exists_graded
  exact Sharing.Linked.pattern_eq hgraded hx

variable (hh : h.Sound)

include hh

/-- Nodes that unfold alike have one fingerprint, and their children unfold alike. -/
theorem of_pattern_eq (hx : g.Present x) (hy : h.Present y) (hxy : linked.pattern g x = linked.pattern h y) :
    g.fingerprint x = h.fingerprint y ∧
      (g.children x).map (linked.pattern g) = (h.children y).map (linked.pattern h) := by
  rw [hg.pattern_eq hx, hh.pattern_eq hy] at hxy
  exact Sharing.Tree.node.inj hxy

theorem pattern_held_eq (hp : g.Present (.property p)) (hq : h.Present (.property q))
    (hpq : linked.pattern g (.property p) = linked.pattern h (.property q)) :
    linked.pattern g (.item (g.property p).item) = linked.pattern h (.item (h.property q).item) := by
  have hchildren := (hg.of_pattern_eq hh hp hq hpq).2
  exact (List.cons.inj hchildren).1

variable (hi : g.Present (.item i)) (hj : h.Present (.item j))
  (hij : linked.pattern g (.item i) = linked.pattern h (.item j))

include hi hj hij

theorem exists_array_of_pattern_eq {e : ItemId} (he : g.item i = .array e) :
    ∃ e', h.item j = .array e' ∧ linked.pattern g (.item e) = linked.pattern h (.item e') := by
  obtain ⟨hfingerprint, hchildren⟩ := hg.of_pattern_eq hh hi hj hij
  obtain ⟨e', he'⟩ := Item.array_of_fingerprint_eq hfingerprint he
  rw [children_item, children_item, he, he'] at hchildren
  exact ⟨e', he', (List.cons.inj hchildren).1⟩

theorem exists_object_of_pattern_eq {o : ObjectNode} (ho : g.object? i = some o) :
    ∃ o', h.object? j = some o' ∧ o.properties.elements.map (fun p => linked.pattern g (.property p)) =
      o'.properties.elements.map fun p => linked.pattern h (.property p) := by
  obtain ⟨hfingerprint, hchildren⟩ := hg.of_pattern_eq hh hi hj hij
  rw [object?_eq_some_iff] at ho
  obtain ⟨o', ho'⟩ := Item.object_of_fingerprint_eq hfingerprint ho
  rw [children_item, children_item, ho, ho', Item.children, Item.children, List.map_map, List.map_map] at hchildren
  exact ⟨o', object?_eq_some_iff.mpr ho', hchildren⟩

theorem exists_scalar_of_pattern_eq {s : Scalar} (hs : g.item i = .scalar s) :
    ∃ t, h.item j = .scalar t ∧ t.fingerprint = s.fingerprint := by
  obtain ⟨hfingerprint, -⟩ := hg.of_pattern_eq hh hi hj hij
  obtain ⟨t, ht⟩ := Item.scalar_of_fingerprint_eq hfingerprint hs
  refine ⟨t, ht, ?_⟩
  rw [fingerprint, fingerprint, hs, ht] at hfingerprint
  exact hfingerprint.symm

/-- What is inside of arrays unfolds alike. -/
theorem pattern_innermost_eq :
    linked.pattern g (.item (g.innermost i)) = linked.pattern h (.item (h.innermost j)) := by
  obtain ⟨henc, hnot⟩ := hg.encloses_innermost hi
  generalize g.innermost i = k at henc hnot
  induction henc generalizing j with
  | refl i =>
    have hjnot : ∀ e, h.item j ≠ .array e := by
      intro e he
      obtain ⟨e', he', -⟩ := hh.exists_array_of_pattern_eq hg hj hi hij.symm he
      exact hnot e' he'
    rw [hh.innermost_of_not_array hj hjnot]
    exact hij
  | array harray _ ih =>
    obtain ⟨e', he', hpattern⟩ := hg.exists_array_of_pattern_eq hh hi hj hij harray
    rw [hh.innermost_array hj he']
    exact ih (hg.present hi (link_item_item_iff.mpr harray)) (hh.present hj (link_item_item_iff.mpr he')) hpattern hnot

end Sound

section Alike

variable (hg : g.Sound) (hh : h.Sound)

include hg hh

/-- What is inside of properties that unfold alike unfolds alike. -/
theorem Sound.pattern_inside_eq (hp : g.Present (.property p)) (hq : h.Present (.property q))
    (hpq : linked.pattern g (.property p) = linked.pattern h (.property q)) :
    linked.pattern g (.item (g.innermost (g.property p).item)) =
      linked.pattern h (.item (h.innermost (h.property q).item)) :=
  hg.pattern_innermost_eq hh (hg.present_held hp) (hh.present_held hq) (hg.pattern_held_eq hh hp hq hpq)

theorem Sound.exists_child? {r : PropertyId} (hp : g.Present (.property p)) (hq : h.Present (.property q))
    (hpq : linked.pattern g (.property p) = linked.pattern h (.property q)) (hr : g.child? p name = some r) :
    ∃ r', h.child? q name = some r' ∧ linked.pattern g (.property r) = linked.pattern h (.property r') := by
  obtain ⟨o, ho, hr⟩ := child?_eq_some_iff.mp hr
  obtain ⟨o', ho', hproperties⟩ := hg.exists_object_of_pattern_eq hh (hg.present_innermost hp) (hh.present_innermost hq)
    (hg.pattern_inside_eq hh hp hq hpq) ho
  obtain ⟨hmem, hname⟩ := (hg.filed ho).get?_eq_some_iff.mp hr
  obtain ⟨r', hr', hpattern⟩ := List.mem_map.mp (hproperties ▸ List.mem_map_of_mem hmem)
  have hpresent : g.Present (.property r) :=
    hg.present (hg.present_innermost hp) (link_item_property_iff.mpr ⟨o, ho, hmem⟩)
  have hpresent' : h.Present (.property r') :=
    hh.present (hh.present_innermost hq) (link_item_property_iff.mpr ⟨o', ho', hr'⟩)
  have hname' : h.propertyName r' = g.propertyName r := (hh.of_pattern_eq hg hpresent' hpresent hpattern).1
  refine ⟨r', child?_eq_some_iff.mpr ⟨o', ho', ?_⟩, hpattern.symm⟩
  exact (hh.filed ho').get?_eq_some_iff.mpr ⟨hr', hname'.trans hname⟩

/-- **Properties that unfold alike have the same paths**, and what these lead to unfolds alike. -/
theorem Sound.exists_propertyAt? (hp : g.Present (.property p)) (hq : h.Present (.property q))
    (hpq : linked.pattern g (.property p) = linked.pattern h (.property q)) {r : PropertyId}
    (hr : g.propertyAt? p path = some r) :
    ∃ r', h.propertyAt? q path = some r' ∧ linked.pattern g (.property r) = linked.pattern h (.property r') := by
  induction path using List.reverseRecOn generalizing r with
  | nil =>
    obtain rfl := Option.some.inj hr
    exact ⟨q, rfl, hpq⟩
  | append_singleton path name ih =>
    obtain ⟨above, habove, hr⟩ := propertyAt?_concat.mp hr
    obtain ⟨above', habove', hpattern⟩ := ih habove
    obtain ⟨r', hr', hpattern'⟩ := hg.exists_child? hh (hg.present_propertyAt? hp habove)
      (hh.present_propertyAt? hq habove') hpattern hr
    exact ⟨r', propertyAt?_concat.mpr ⟨above', habove', hr'⟩, hpattern'⟩

end Alike

/-! ### Paths after moves -/

namespace Moved

variable {moves : List Move} (hmoved : Moved g moves h)

include hmoved

theorem innermostWithin_eq (depth : Nat) : ∀ i, h.innermostWithin depth i = g.innermostWithin depth i := by
  induction depth with
  | zero => exact fun i => rfl
  | succ depth ih =>
    intro i
    rw [innermostWithin, innermostWithin]
    cases hitem : g.item i with
    | array e =>
      rw [hmoved.array_iff.mpr hitem]
      exact ih e
    | scalar s => rw [hmoved.scalar_iff.mpr hitem]
    | object o => rw [object?_eq_some_iff.mp (hmoved.object?_eq_some (object?_eq_some_iff.mpr hitem))]

theorem innermost_eq (i : ItemId) : h.innermost i = g.innermost i := by
  rw [innermost, innermost, depth, depth, hmoved.items_size, hmoved.innermostWithin_eq]

/-- A name leads from a property to where it led from the property that leads it. -/
theorem child?_eq (p : PropertyId) (name : String) : h.child? p name = g.child? (lead moves p) name := by
  rw [child?, child?, hmoved.innermost_eq, hmoved.held_eq, hmoved.object?_eq]
  cases g.object? (g.innermost (g.property (lead moves p)).item) <;> rfl

end Moved

section Moves

variable {moves : List Move} (hsound : g.Sound) (hroot : g.Present (.property root)) (hg : g.Arboreal root)
  (hmoves : SiblingMoves g root moves)

include hsound hroot

theorem Sound.leads_propertyAt? (hq : g.propertyAt? root path = some q) : g.Leads (.property root) (.property q) := by
  induction path using List.reverseRecOn generalizing q with
  | nil =>
    obtain rfl := Option.some.inj hq
    exact .refl
  | append_singleton path name ih =>
    obtain ⟨r, hr, hq⟩ := propertyAt?_concat.mp hq
    obtain ⟨o, ho, hq⟩ := child?_eq_some_iff.mp hq
    have hinside := (ih hr).trans (hsound.leads_innermost (hsound.present_propertyAt? hroot hr))
    exact hinside.tail (link_item_property_iff.mpr ⟨o, ho, Registry.mem_elements_of_get? hq⟩)

/-- Every property below the root is at the end of a path. -/
theorem Sound.exists_path (hq : g.Leads (.property root) (.property q)) : ∃ path, g.propertyAt? root path = some q := by
  -- An item below the root is inside of a property at the end of a path, so the path goes on to the properties in it.
  have hnext : ∀ {i : ItemId} {o : ObjectNode} {p : PropertyId},
      (∃ path r, g.propertyAt? root path = some r ∧ g.Encloses (g.property r).item i) → g.object? i = some o →
      p ∈ o.properties.elements → ∃ path, g.propertyAt? root path = some p := by
    rintro i o p ⟨path, r, hr, henc⟩ ho hp
    have hnot : ∀ e, g.item i ≠ .array e := fun e he => nomatch (object?_eq_some_iff.mp ho).symm.trans he
    obtain ⟨hinside, hinsideNot⟩ := hsound.encloses_innermost (hsound.present_held (hsound.present_propertyAt? hroot hr))
    obtain rfl := hinside.eq_of_not_array hinsideNot henc hnot
    exact ⟨path ++ [g.propertyName p], propertyAt?_concat.mpr
      ⟨r, hr, child?_eq_some_iff.mpr ⟨o, ho, (hsound.filed ho).get?_of_mem hp⟩⟩⟩
  have hitem : ∀ {k : ItemId}, g.Leads (.property root) (.item k) →
      ∃ path r, g.propertyAt? root path = some r ∧ g.Encloses (g.property r).item k := by
    intro k hk
    refine item_induction (fun k henc => ⟨[], root, rfl, henc⟩) (fun i o p k _ ho hi hp henc => ?_) hk
    obtain ⟨path, hpath⟩ := hnext hi ho hp
    exact ⟨path, p, hpath, henc⟩
  rcases Relation.ReflTransGen.cases_tail hq with heq | ⟨x, hx, hlink⟩
  · exact ⟨[], congrArg some (Node.property.inj heq).symm⟩
  · cases x with
    | property p => exact nomatch link_property_iff.mp hlink
    | item i =>
      obtain ⟨o, ho, hp⟩ := link_item_property_iff.mp hlink
      exact hnext (hitem hx) ho hp

include hg hmoves

/-- Beside a property stands the property that leads it. -/
theorem SiblingMoves.exists_propertyAt?_lead (hq : g.propertyAt? root path = some q) :
    ∃ path', path'.length = path.length ∧ g.propertyAt? root path' = some (lead moves q) := by
  induction path using List.reverseRecOn with
  | nil =>
    obtain rfl := Option.some.inj hq
    exact ⟨[], rfl, congrArg some (hmoves.lead_root hg).symm⟩
  | append_singleton path name _ =>
    obtain ⟨r, hr, hq⟩ := propertyAt?_concat.mp hq
    obtain ⟨o, ho, hq⟩ := child?_eq_some_iff.mp hq
    have hinside := hsound.leads_innermost (hsound.present_propertyAt? hroot hr)
    have hlead := hmoves.lead_mem hg ((hsound.leads_propertyAt? hroot hr).trans hinside) ho
      (Registry.mem_elements_of_get? hq)
    refine ⟨path ++ [g.propertyName (lead moves q)], by simp, propertyAt?_concat.mpr ⟨r, hr, ?_⟩⟩
    exact child?_eq_some_iff.mpr ⟨o, ho, (hsound.filed ho).get?_of_mem hlead⟩

/-- **What a path leads to after moves** was found before them, at the end of a path of the same length. -/
theorem Moved.exists_propertyAt? (hmoved : Moved g moves h) (hq : h.propertyAt? root path = some q) :
    ∃ path', path'.length = path.length ∧ g.propertyAt? root path' = some q := by
  induction path using List.reverseRecOn generalizing q with
  | nil => exact ⟨[], rfl, hq⟩
  | append_singleton path name ih =>
    obtain ⟨r, hr, hq⟩ := propertyAt?_concat.mp hq
    obtain ⟨path', hlength, hr'⟩ := ih hr
    obtain ⟨path'', hlength', hlead⟩ := hmoves.exists_propertyAt?_lead hsound hroot hg hr'
    rw [hmoved.child?_eq] at hq
    exact ⟨path'' ++ [name], by simp [hlength, hlength'], propertyAt?_concat.mpr ⟨lead moves r, hlead, hq⟩⟩

end Moves

/-! ### Paths after sharing -/

theorem Moved.redirect {done : List Move} {m : Move} (hmoved : Moved g done h)
    (hmoves : SiblingMoves g root (done ++ [m])) (hlt : m.holder.index < g.properties.size) :
    Moved g (done ++ [m]) (h.redirect (m.redirection g)) := by
  have hheld : (h.property m.holder).item = (g.property m.holder).item := by
    rw [hmoved.held_eq, hmoves.lead_holder]
  rw [Move.redirection, Graph.redirect, replaceItem]
  simp only [hheld, if_true]
  exact ((hmoved.setProperty hmoves.holder_ne hlt).rename _ _).setMark _ _

theorem moved_carryOut (hg : g.Arboreal root) (moves : List Move) :
    SiblingMoves g root moves → Moved g moves (g.carryOut moves) := by
  induction moves using List.reverseRecOn with
  | nil => exact fun _ => .refl g
  | append_singleton done m ih =>
    intro hmoves
    obtain ⟨i, o, hi, ho, hholder, -⟩ := hmoves.siblings m (by simp)
    have hlt := hg.bounded (hi.tail (link_item_property_iff.mpr ⟨o, ho, hholder⟩))
    rw [carryOut_append_singleton]
    exact (ih (hmoves.sublist (List.sublist_append_left done [m]))).redirect hmoves hlt

/-- Sharing the equal subtrees of a tree moves properties, and nothing else but names and marks changes. -/
theorem Arboreal.exists_moved_dedup (hg : g.Arboreal root) (hdiscerning : linked.Discerning g (.property root)) :
    ∃ moves, SiblingMoves g root moves ∧ Moved g moves (g.dedup root Schema.sharingLevel) := by
  obtain ⟨moves, hmoves, hplan⟩ := hg.exists_moves hdiscerning
  exact ⟨moves, hmoves, dedup_eq_carryOut hplan ▸ moved_carryOut hg moves hmoves⟩

theorem present_dedup_iff : (g.dedup root Schema.sharingLevel).Present x ↔ g.Present x :=
  present_share_iff g _ _

namespace Sound

variable (hsound : g.Sound) (hroot : g.Present (.property root)) (hdiscerning : linked.Discerning g (.property root))

include hsound hroot

theorem dedup : (g.dedup root Schema.sharingLevel).Sound :=
  hsound.share hroot _

include hdiscerning

theorem pattern_dedup (hx : g.Present x) :
    linked.pattern (g.dedup root Schema.sharingLevel) x = linked.pattern g x := by
  obtain ⟨rank, hgraded⟩ := hsound.exists_graded
  exact (hsound.interchanged_share hroot _ hdiscerning).toAlike.pattern_eq hgraded hx

/-- **Sharing keeps paths**, and what a path leads to unfolds as what it led to before. -/
theorem exists_propertyAt?_dedup (hp : g.propertyAt? root path = some p) :
    ∃ q, (g.dedup root Schema.sharingLevel).propertyAt? root path = some q ∧
      linked.pattern g (.property p) = linked.pattern (g.dedup root Schema.sharingLevel) (.property q) :=
  hsound.exists_propertyAt? (hsound.dedup hroot) hroot (present_dedup_iff.mpr hroot)
    (hsound.pattern_dedup hroot hdiscerning hroot).symm hp

/-- A path to a scalar leads to a scalar with the same fingerprint after sharing. That scalar was at the end of a path
of the same length before. -/
theorem exists_scalar_dedup (hg : g.Arboreal root) {s : Scalar} (hs : g.itemAt? root path = some (.scalar s)) :
    ∃ t, (g.dedup root Schema.sharingLevel).itemAt? root path = some (.scalar t) ∧ t.fingerprint = s.fingerprint ∧
      ∃ path', path'.length = path.length ∧ g.itemAt? root path' = some (.scalar t) := by
  obtain ⟨moves, hmoves, hmoved⟩ := hg.exists_moved_dedup hdiscerning
  have hshared := hsound.dedup hroot
  obtain ⟨p, hp, hs⟩ := itemAt?_eq_some_iff.mp hs
  obtain ⟨q, hq, hpattern⟩ := hsound.exists_propertyAt?_dedup hroot hdiscerning hp
  have hpresent := hsound.present_propertyAt? hroot hp
  have hpresent' := hshared.present_propertyAt? (present_dedup_iff.mpr hroot) hq
  obtain ⟨t, ht, hfingerprint⟩ := hsound.exists_scalar_of_pattern_eq hshared (hsound.present_innermost hpresent)
    (hshared.present_innermost hpresent') (hsound.pattern_inside_eq hshared hpresent hpresent' hpattern) hs
  refine ⟨t, itemAt?_eq_some_iff.mpr ⟨q, hq, ht⟩, hfingerprint, ?_⟩
  -- The scalar is the one inside the property that leads `q`.
  obtain ⟨path', hlength, hq'⟩ := hmoved.exists_propertyAt? hsound hroot hg hmoves hq
  obtain ⟨path'', hlength', hlead⟩ := hmoves.exists_propertyAt?_lead hsound hroot hg hq'
  rw [hmoved.innermost_eq, hmoved.held_eq, hmoved.scalar_iff] at ht
  exact ⟨path'', hlength'.trans hlength, itemAt?_eq_some_iff.mpr ⟨_, hlead, ht⟩⟩

end Sound

end Graph

end Schemata
