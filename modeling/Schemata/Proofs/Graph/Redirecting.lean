import Schemata.Proofs.Graph.Moving
import Schemata.Proofs.Graph.Sound
import Schemata.Proofs.Sharing.Weights

/-!
# What a redirection does to a graph

A redirection gives one node another child, and nothing else matters to the trees below the nodes: names and marks may
change along the way, but neither the fingerprints nor the children of the other nodes do. So equal subtrees can be put
in each other's place at will. `Sound.interchanged_share` says so for a whole run.

`redirect_cases` tells what a redirection can do, once and for all.
-/

namespace Schemata

/-- If an element is put in the place of another one, what does not tell the two apart does not tell the registries
apart. -/
theorem Registry.map_elements_put_erase {α β : Type} {nameOf : α → String} {r : Registry α} {name : String} {x y : α}
    {f : α → β} (hfiled : r.Filed nameOf) (hy : r.get? name = some y) (hxy : f x = f y) :
    ((r.erase name).put name x).elements.map f = r.elements.map f := by
  obtain ⟨hmem, hname⟩ := hfiled.get?_eq_some_iff.mp hy
  have hentry : (name, y) ∈ r.entries := hfiled.mem_entries_iff.mpr ⟨hmem, hname⟩
  have hascending := hfiled.ascending
  obtain ⟨entries⟩ := r
  simp only [elements, keys, erase, put] at hentry hascending ⊢
  clear hfiled hy hmem hname
  induction entries with
  | nil => exact absurd hentry List.not_mem_nil
  | cons entry rest ih =>
    obtain ⟨key, z⟩ := entry
    rw [List.map_cons, List.pairwise_cons] at hascending
    have hlater : ∀ e ∈ rest, key < e.1 := fun e he => hascending.1 _ (List.mem_map_of_mem he)
    rcases List.mem_cons.mp hentry with heq | hrest
    · -- The element stands first, and what is behind it stays.
      obtain ⟨rfl, rfl⟩ := Prod.mk.inj heq
      have hkept : rest.filter (fun e => e.1 != name) = rest :=
        List.filter_eq_self.mpr fun e he => by simpa using (ne_of_lt (hlater e he)).symm
      have hput : putEntry name x rest = (name, x) :: rest := by
        cases rest with
        | nil => rfl
        | cons e rest => rw [putEntry, if_pos (hlater e (by simp))]
      rw [List.filter_cons_of_neg (by simp), hkept, hput]
      simp [hxy]
    · have hlt : key < name := hlater _ hrest
      rw [List.filter_cons_of_pos (by simpa using ne_of_lt hlt), putEntry, if_neg hlt.not_gt, if_neg (ne_of_gt hlt)]
      simp only [List.map_cons, ih hrest hascending.2]

namespace Graph

open Sharing (Linked Ground Redirection Graded)

variable {g h : Graph} {moves : List Move} {i j : ItemId} {p q : PropertyId} {x y : Node} {S : Set Node}

/-! ### Renames -/

theorem Moved.setName {o : ObjectNode} (hmoved : Moved g moves h) (ho : h.object? i = some o) (name : String) :
    Moved g moves (h.setItem i (.object { o with typeName := name })) := by
  refine ⟨?_, hmoved.properties_size, fun j => ?_, hmoved.property_eq, hmoved.held_eq⟩
  · rw [size_items_setItem, hmoved.items_size]
  · rw [item_setItem]
    split_ifs with hj
    · obtain ⟨old, hitem⟩ := hmoved.item_eq i
      rw [object?_eq_some_iff.mp ho] at hitem
      refine ⟨name, ?_⟩
      rw [hj.1]
      cases hold : g.item i with
      | object c =>
        rw [hold] at hitem
        obtain rfl := Item.object.inj hitem
        rfl
      | scalar s => exact nomatch hold ▸ hitem
      | array e => exact nomatch hold ▸ hitem
    · exact hmoved.item_eq j

/-- A walk that renames changes names and marks only, wherever it comes. -/
theorem Moved.renameWithin (depth : Nat) : ∀ {h : Graph} {i : ItemId} {m : Mark}, Moved g moves h →
    Moved g moves (Graph.renameWithin depth h i m).1 := by
  induction depth with
  | zero => exact fun hmoved => hmoved
  | succ depth ih =>
    intro h i m hmoved
    have hfold : ∀ (ps : List PropertyId) (h : Graph) (m : Mark), Moved g moves h →
        Moved g moves (ps.foldl
          (fun a p => Graph.renameWithin depth (a.1.followMark p a.2) (a.1.property p).item a.2) (h, m)).1 := by
      intro ps
      induction ps with
      | nil => exact fun h m hmoved => hmoved
      | cons p ps ihps => exact fun h m hmoved => ihps _ _ (ih (hmoved.setMark p _))
    rw [Graph.renameWithin]
    split
    · exact hmoved
    · exact ih hmoved
    · rename_i o hitem
      split
      · exact hmoved
      · exact hfold _ _ _ (hmoved.setName (object?_eq_some_iff.mpr hitem) _)

theorem Moved.rename (hmoved : Moved g moves h) (i : ItemId) (m : Mark) : Moved g moves (h.rename i m).1 :=
  hmoved.renameWithin h.depth

/-- A graph in which nothing is moved has the same links. -/
theorem Moved.children_eq (hmoved : Moved g [] h) (x : Node) : h.children x = g.children x := by
  cases x with
  | property p => rw [children, children, hmoved.held_eq p, lead_of_forall_ne (by simp)]
  | item i =>
    obtain ⟨name, hitem⟩ := hmoved.item_eq i
    rw [children_item, children_item, hitem]
    cases g.item i <;> rfl

theorem Moved.fingerprint_eq (hmoved : Moved g moves h) (x : Node) : h.fingerprint x = g.fingerprint x := by
  cases x with
  | property p => exact hmoved.propertyName_eq p
  | item i =>
    obtain ⟨name, hitem⟩ := hmoved.item_eq i
    rw [fingerprint, fingerprint, hitem]
    cases g.item i <;> rfl

/-! ### Redirections -/

/-- A property holds the source in place of the destination; names and marks may have changed as well. -/
structure ItemReplaced (g : Graph) (r : Redirection Node) (p : PropertyId) (source : ItemId) (h : Graph) : Prop where
  holder_eq : r.holder = .property p
  source_eq : r.source = .item source
  destination_eq : r.destination = .item (g.property p).item
  moved : Moved (g.setProperty p { g.property p with item := source }) [] h

/-- An array holds the source in place of the destination. -/
structure ElementReplaced (g : Graph) (r : Redirection Node) (i source destination : ItemId) (h : Graph) : Prop where
  holder_eq : r.holder = .item i
  source_eq : r.source = .item source
  destination_eq : r.destination = .item destination
  array : g.item i = .array destination
  graph_eq : h = g.setItem i (.array source)

/-- An object holds the source in place of its property with the name of the destination. -/
structure PropertyReplaced (g : Graph) (r : Redirection Node) (i : ItemId) (o : ObjectNode)
    (source destination replaced : PropertyId) (h : Graph) : Prop where
  holder_eq : r.holder = .item i
  source_eq : r.source = .property source
  destination_eq : r.destination = .property destination
  object : g.object? i = some o
  get? : o.properties.get? (g.propertyName destination) = some replaced
  graph_eq : h = g.setItem i (.object { o with
    properties := (o.properties.erase (g.propertyName destination)).insert g.propertyName source })

/-- What a redirection can do. -/
theorem redirect_cases (g : Graph) (r : Redirection Node) :
    g.redirect r = g ∨ (∃ p source, g.ItemReplaced r p source (g.redirect r)) ∨
      (∃ i source destination, g.ElementReplaced r i source destination (g.redirect r)) ∨
      ∃ i o source destination replaced, g.PropertyReplaced r i o source destination replaced (g.redirect r) := by
  obtain ⟨holder | holder, source | source, destination | destination⟩ := r
  · exact .inl rfl
  · exact .inl rfl
  · exact .inl rfl
  · rw [redirect, replaceItem]
    split_ifs with hitem
    · exact .inr (.inl ⟨holder, source, rfl, rfl, by rw [hitem], ((Moved.refl _).rename source _).setMark holder _⟩)
    · exact .inl rfl
  · rw [redirect, replaceProperty]
    split
    · rename_i o hitem
      split_ifs with hcontains
      · obtain ⟨replaced, hreplaced⟩ := Option.isSome_iff_exists.mp hcontains
        exact .inr (.inr (.inr ⟨holder, o, source, destination, replaced, rfl, rfl, rfl,
          object?_eq_some_iff.mpr hitem, hreplaced, rfl⟩))
      · exact .inl rfl
    · exact .inl rfl
  · exact .inl rfl
  · exact .inl rfl
  · rw [redirect, replaceElement]
    split
    · rename_i e hitem
      split_ifs with he
      · exact .inr (.inr (.inl ⟨holder, source, destination, rfl, rfl, rfl, he ▸ hitem, rfl⟩))
      · exact .inl rfl
    · exact .inl rfl

theorem fingerprint_setItem {item : Item} (hitem : item.fingerprint = (g.item i).fingerprint) (x : Node) :
    (g.setItem i item).fingerprint x = g.fingerprint x := by
  cases x with
  | property p => rfl
  | item j =>
    rw [fingerprint, fingerprint, item_setItem]
    split_ifs with hj
    · rw [hitem, hj.1]
    · rfl

theorem fingerprint_setProperty {property : Property} (hname : property.name = g.propertyName p) (x : Node) :
    (g.setProperty p property).fingerprint x = g.fingerprint x := by
  cases x with
  | item j => rfl
  | property q =>
    rw [fingerprint, fingerprint, propertyName, property_setProperty]
    split_ifs with hq
    · rw [hname, hq.1]
    · rfl

/-- No fingerprint is changed by a redirection. -/
theorem fingerprint_redirect (g : Graph) (r : Redirection Node) (x : Node) :
    (g.redirect r).fingerprint x = g.fingerprint x := by
  rcases g.redirect_cases r with heq | ⟨p, source, hr⟩ | ⟨i, source, destination, hr⟩ | ⟨i, o, source, destination, _, hr⟩
  · rw [heq]
  · have hname : ({ g.property p with item := source } : Property).name = g.propertyName p := rfl
    exact (hr.moved.fingerprint_eq x).trans (fingerprint_setProperty hname x)
  · rw [hr.graph_eq, fingerprint_setItem (by rw [hr.array]; rfl)]
  · rw [hr.graph_eq, fingerprint_setItem (by rw [object?_eq_some_iff.mp hr.object]; rfl)]

theorem propertyName_redirect (g : Graph) (r : Redirection Node) : (g.redirect r).propertyName = g.propertyName :=
  funext fun p => g.fingerprint_redirect r (.property p)

theorem size_redirect (g : Graph) (r : Redirection Node) :
    (g.redirect r).items.size = g.items.size ∧ (g.redirect r).properties.size = g.properties.size := by
  rcases g.redirect_cases r with heq | ⟨p, source, hr⟩ | ⟨i, source, destination, hr⟩ | ⟨i, o, source, destination, _, hr⟩
  · rw [heq]
    exact ⟨rfl, rfl⟩
  · exact ⟨hr.moved.items_size, by rw [hr.moved.properties_size, size_properties_setProperty]⟩
  · rw [hr.graph_eq]
    exact ⟨size_items_setItem _ _ _, rfl⟩
  · rw [hr.graph_eq]
    exact ⟨size_items_setItem _ _ _, rfl⟩

/-- A redirection gives no node another child, except for the node that is asked, which may get the source. -/
theorem mem_children_redirect {r : Redirection Node} (hy : y ∈ (g.redirect r).children x) :
    y ∈ g.children x ∨ (x = r.holder ∧ y = r.source) := by
  have hset : ∀ {i item}, (∀ z ∈ item.children, z ∈ (g.item i).children ∨ (.item i = r.holder ∧ z = r.source)) →
      y ∈ (g.setItem i item).children x → y ∈ g.children x ∨ (x = r.holder ∧ y = r.source) := by
    intro i item hitem hy
    cases x with
    | property p => exact .inl hy
    | item j =>
      rw [children_item] at hy ⊢
      rw [item_setItem] at hy
      split_ifs at hy with hj
      · rw [hj.1]
        exact hitem y hy
      · exact .inl hy
  rcases g.redirect_cases r with heq | ⟨p, source, hr⟩ | ⟨i, source, destination, hr⟩ | ⟨i, o, source, destination, _, hr⟩
  · exact .inl (heq ▸ hy)
  · rw [hr.moved.children_eq] at hy
    cases x with
    | item j => exact .inl hy
    | property q =>
      rw [children, List.mem_singleton, property_setProperty] at hy
      split_ifs at hy with hq
      · exact .inr ⟨by rw [hr.holder_eq, hq.1], by rw [hr.source_eq, hy]⟩
      · exact .inl (by rw [children, hy, List.mem_singleton])
  · refine hset (fun z hz => .inr ⟨hr.holder_eq.symm, ?_⟩) (hr.graph_eq ▸ hy)
    rw [hr.source_eq]
    exact List.mem_singleton.mp hz
  · refine hset (fun z hz => ?_) (hr.graph_eq ▸ hy)
    obtain ⟨q, hq, rfl⟩ := List.mem_map.mp hz
    rcases Registry.mem_elements_put hq with rfl | hq
    · exact .inr ⟨hr.holder_eq.symm, hr.source_eq.symm⟩
    · rw [object?_eq_some_iff.mp hr.object]
      exact .inl (List.mem_map_of_mem (Registry.mem_elements_erase hq))

/-- Objects go on filing their properties by name. -/
theorem filed_redirect {r : Redirection Node}
    (hfiled : ∀ {i : ItemId} {o : ObjectNode}, g.object? i = some o → o.properties.Filed g.propertyName)
    {i : ItemId} {o : ObjectNode} (ho : (g.redirect r).object? i = some o) :
    o.properties.Filed (g.redirect r).propertyName := by
  rw [propertyName_redirect]
  rcases g.redirect_cases r with heq | ⟨p, source, hr⟩ | ⟨j, source, destination, hr⟩ | ⟨j, c, source, destination, _, hr⟩
  · exact hfiled (heq ▸ ho)
  · obtain ⟨c, hc, hproperties, -⟩ := hr.moved.exists_object? ho
    rw [← hproperties]
    exact hfiled hc
  · rw [hr.graph_eq, object?_eq_some_iff, item_setItem] at ho
    split_ifs at ho
    · exact hfiled (object?_eq_some_iff.mpr ho)
  · rw [hr.graph_eq, object?_eq_some_iff, item_setItem] at ho
    split_ifs at ho
    · obtain rfl := Item.object.inj ho
      exact ((hfiled hr.object).erase _).put rfl
    · exact hfiled (object?_eq_some_iff.mpr ho)

/-! ### Soundness -/

theorem present_foldl_redirect_iff (g : Graph) (rs : List (Redirection Node)) :
    (rs.foldl redirect g).Present x ↔ g.Present x := by
  refine List.foldlRecOn (motive := fun h : Graph => h.Present x ↔ g.Present x) _ _ Iff.rfl fun h hh r _ => ?_
  obtain ⟨hitems, hproperties⟩ := h.size_redirect r
  rw [← hh]
  cases x with
  | item i => exact iff_of_eq (congrArg (i.index < ·) hitems)
  | property p => exact iff_of_eq (congrArg (p.index < ·) hproperties)

theorem present_share_iff (g : Graph) (root : Node) (level : Nat) :
    (linked.share g root level).Present x ↔ g.Present x :=
  present_foldl_redirect_iff g _

/-- Redirections of a plan keep a graph sound, whatever the digests are. -/
theorem Sound.foldl_redirect (hg : g.Sound) {root : Node} (hroot : g.Present root) (level : Nat)
    {rs : List (Redirection Node)} (hrs : ∀ r ∈ rs, r ∈ linked.plan g root level) : (rs.foldl redirect g).Sound := by
  obtain ⟨rank, hgraded⟩ := hg.exists_graded
  have hdown : ∀ {x y}, g.Present x → y ∈ (rs.foldl redirect g).children x →
      g.Present y ∧ linked.weight g y < linked.weight g x := fun {x y} hx hy =>
    Linked.weight_lt_of_mem_children_foldl (S := { x | g.Present x }) hgraded mem_children_redirect hroot hrs hx hy
  have hpresent : ∀ {x y}, (rs.foldl redirect g).Present x → (rs.foldl redirect g).Link x y →
      (rs.foldl redirect g).Present y := fun hx hlink =>
    (present_foldl_redirect_iff g rs).mpr (hdown ((present_foldl_redirect_iff g rs).mp hx) hlink).1
  refine ⟨hpresent, ?_, fun {i o} => ?_⟩
  · exact acyclic_of_present (linked.weight g) hpresent fun hx hlink =>
      (hdown ((present_foldl_redirect_iff g rs).mp hx) hlink).2
  · exact List.foldlRecOn (motive := fun h : Graph => ∀ {i o}, h.object? i = some o → o.properties.Filed h.propertyName)
      _ _ hg.filed fun h hh r _ => filed_redirect hh

/-- **Sharing keeps a graph sound**, whatever the digests are. -/
theorem Sound.share (hg : g.Sound) {root : Node} (hroot : g.Present root) (level : Nat) :
    (linked.share g root level).Sound :=
  hg.foldl_redirect hroot level fun _ hr => hr

/-! ### Trees of fingerprints -/

section Interchange

variable {rank : Node → Nat} {r : Redirection Node}

/-- Nothing has happened to a graph but that equal subtrees were put in each other's place. -/
structure Interchanged (g h : Graph) : Prop extends linked.Alike { x | g.Present x } g h where
  filed : ∀ {i : ItemId} {o : ObjectNode}, h.object? i = some o → o.properties.Filed h.propertyName

theorem map_children_setItem {β : Type} {f : Node → β} {item : Item}
    (hitem : item.children.map f = (g.item i).children.map f) (x : Node) :
    ((g.setItem i item).children x).map f = (g.children x).map f := by
  cases x with
  | property p => rfl
  | item j =>
    rw [children_item, children_item, item_setItem]
    split_ifs with hj
    · rw [hitem, hj.1]
    · rfl

theorem map_children_setProperty {β : Type} {f : Node → β} {property : Property}
    (hitem : f (.item property.item) = f (.item (g.property p).item)) (x : Node) :
    ((g.setProperty p property).children x).map f = (g.children x).map f := by
  cases x with
  | item j => rfl
  | property q =>
    rw [children, children, property_setProperty]
    split_ifs with hq
    · rw [List.map_singleton, List.map_singleton, hitem, hq.1]
    · rfl

/-- An object has one property for every name, so the one with the name of an equal one is equal to it. -/
theorem eq_of_mem_map_pattern (hh : Interchanged g h) {o : ObjectNode} {replaced destination : PropertyId}
    (ho : h.object? i = some o) (hi : g.Present (.item i))
    (hget : o.properties.get? (h.propertyName destination) = some replaced)
    (hheld : linked.pattern g (.property destination) ∈ (g.children (.item i)).map (linked.pattern g)) :
    linked.pattern g (.property replaced) = linked.pattern g (.property destination) := by
  have hchildren : h.children (.item i) = o.properties.elements.map .property := by
    rw [children_item, object?_eq_some_iff.mp ho]
    rfl
  have hsame : (h.children (.item i)).map (linked.pattern g) = (g.children (.item i)).map (linked.pattern g) :=
    hh.map_pattern_eq (x := .item i) hi
  rw [← hsame] at hheld
  obtain ⟨z, hz, hzd⟩ := List.mem_map.mp hheld
  obtain ⟨q, hq, rfl⟩ := List.mem_map.mp (hchildren ▸ hz)
  have hname : h.propertyName q = h.propertyName destination := by
    have hfingerprint := Linked.fingerprint_eq_of_pattern_eq hzd
    rw [← hh.fingerprint_eq, ← hh.fingerprint_eq] at hfingerprint
    exact hfingerprint
  obtain ⟨hmem, hreplaced⟩ := (hh.filed ho).get?_eq_some_iff.mp hget
  rw [(hh.filed ho).eq_of_name_eq hmem hq (hreplaced.trans hname.symm), hzd]

/-- A redirection puts equal subtrees in each other's place, if the source is equal to the destination and the node that
is asked has an equal child. -/
theorem Interchanged.redirect (hh : Interchanged g h) (hholder : g.Present r.holder) (hsource : g.Present r.source)
    (hequal : linked.pattern g r.source = linked.pattern g r.destination)
    (hheld : linked.pattern g r.destination ∈ (g.children r.holder).map (linked.pattern g)) :
    Interchanged g (h.redirect r) := by
  refine ⟨⟨?_, fun x => ?_, fun {x y} hx hy => ?_, fun {x} hx => ?_⟩, filed_redirect hh.filed⟩
  · obtain ⟨hitems, hproperties⟩ := h.size_redirect r
    rw [← hh.bound_eq]
    exact congrArg₂ (· + ·) hitems hproperties
  · exact (fingerprint_redirect h r x).trans (hh.fingerprint_eq x)
  · rcases mem_children_redirect hy with hy | ⟨-, rfl⟩
    · exact hh.mem hx hy
    · exact hsource
  · refine Eq.trans ?_ (hh.map_pattern_eq hx)
    rcases h.redirect_cases r with heq | ⟨p, source, hr⟩ | ⟨i, source, destination, hr⟩ |
      ⟨i, o, source, destination, replaced, hr⟩
    · exact congrArg (fun k => (children k x).map _) heq
    · rw [hr.source_eq, hr.destination_eq] at hequal
      exact (congrArg (List.map _) (hr.moved.children_eq x)).trans (map_children_setProperty hequal x)
    · rw [hr.source_eq, hr.destination_eq] at hequal
      have hitem : (Item.array source).children.map (linked.pattern g) =
          (h.item i).children.map (linked.pattern g) := by
        rw [hr.array]
        exact congrArg (fun t => [t]) hequal
      exact (congrArg (fun k => (children k x).map _) hr.graph_eq).trans (map_children_setItem hitem x)
    · rw [hr.source_eq, hr.destination_eq] at hequal
      rw [hr.destination_eq, hr.holder_eq] at hheld
      rw [hr.holder_eq] at hholder
      have hreplaced := eq_of_mem_map_pattern hh hr.object hholder hr.get? hheld
      have hname : h.propertyName source = h.propertyName destination := by
        have hfingerprint := Linked.fingerprint_eq_of_pattern_eq hequal
        rw [← hh.fingerprint_eq, ← hh.fingerprint_eq] at hfingerprint
        exact hfingerprint
      have hitem : (Item.object { o with properties :=
          (o.properties.erase (h.propertyName destination)).insert h.propertyName source }).children.map
            (linked.pattern g) = (h.item i).children.map (linked.pattern g) := by
        rw [object?_eq_some_iff.mp hr.object, Item.children, Item.children, List.map_map, List.map_map,
          Registry.insert, hname]
        exact Registry.map_elements_put_erase (hh.filed hr.object) hr.get? (hequal.trans hreplaced.symm)
      exact (congrArg (fun k => (children k x).map _) hr.graph_eq).trans (map_children_setItem hitem x)

/-- **Sharing puts equal subtrees in each other's place**, below any node of a sound graph and at every level, if equal
digests stand for equal subtrees. -/
theorem Sound.interchanged_share (hg : g.Sound) {root : Node} (hroot : g.Present root) (level : Nat)
    (hdiscerning : linked.Discerning g root) : Interchanged g (linked.share g root level) := by
  obtain ⟨rank, hgraded⟩ := hg.exists_graded
  refine List.foldlRecOn _ _ (⟨.refl hgraded, hg.filed⟩ : Interchanged g g) fun h hh r hr => ?_
  have hmem : root ∈ { x | g.Present x } := hroot
  obtain ⟨hholder, hsource, hequal, hheld⟩ := Linked.pattern_eq_of_mem_plan hgraded hmem hdiscerning hr
  exact hh.redirect hholder hsource hequal hheld

end Interchange

end Graph

end Schemata
