import Schemata.Proofs.Drafts
import Schemata.Proofs.Invariance.Schemas
import Schemata.Proofs.Placement

/-!
# References to parents

A schema with a parent gets a property that refers to it: a text that must be present, is never null and has no default
(`Schema.RefersTo`). The property is added before anything is shared and before anything is inherited, and neither takes
it away. Sharing may make it hold the scalar of a property beside it, but one with the same fingerprint, and that is the
same scalar, because no other token of a type spells the kind of texts. In a join a schema's own properties win, and
there is nothing to require of a scalar that cannot be null.

So what a conversion collects has a root object for every schema to generate, with a reference to its parent if it has
one (`convert_files_roots_with_parents`).
-/

namespace Schemata

open Schemata.Graph (linked Grown Kept)

namespace Schema

variable {g h : Graph} {s : Schema} {data : Entries} {parent : String}

/-! ### References -/

/-- The scalar of a reference to a parent: a text that must be present, is not null and has no default. -/
def reference : Scalar :=
  { kind := .string, required := true, nullable := false, default := none }

theorem parentScalar_eq (parent : String) : parentScalar parent = reference := by
  have hget : (definition "string").get? "default" = none := by decide
  simp [parentScalar, reference, Shape.scalarOf, Shape.Context.below, rootContext, hget]

/-- A scalar with the fingerprint of a reference is one, if its kind is told by its name. -/
theorem eq_reference_of_fingerprint_eq {t : Scalar} (hkind : t.kind.name = "string" → t.kind = .string)
    (ht : t.fingerprint = reference.fingerprint) : t = reference := by
  obtain ⟨hname, hnull, hdefault⟩ := Scalar.fingerprint_eq_iff.mp ht
  obtain ⟨hrequired, hnullable⟩ := Scalar.flags_eq_of_isNull_eq_false hnull rfl
  obtain ⟨kind, required, nullable, default⟩ := t
  obtain rfl : kind = .string := hkind hname
  obtain rfl : required = true := hrequired
  obtain rfl : nullable = false := hnullable
  obtain rfl : default = none := Option.map_eq_none_iff.mp hdefault
  rfl

/-- The root object of a schema has a property that refers to a parent. -/
def RefersTo (g : Graph) (s : Schema) (parent : String) : Prop :=
  ∃ q, s.property? g (parentProperty parent) = some q ∧ g.held q = .scalar reference

/-- A schema that has been read refers to its parent, and the scalars beside the reference are told by their names. -/
theorem exists_reference_of_read (hread : read g data = .ok (h, s)) (hparent : parentOf? data = some parent) :
    ∃ o q, h.object? (h.property s.root).item = some o ∧ o.properties.get? (parentProperty parent) = some q ∧
      h.held q = .scalar reference ∧ ∀ p ∈ o.properties.elements, ∀ t, h.held p = .scalar t →
        t.kind.name = "string" → t.kind = .string := by
  rw [read_eq_addParent, bind_eq_ok_iff, hparent] at hread
  obtain ⟨⟨b, t⟩, hdraft, hread⟩ := hread
  obtain ⟨body, o, hdraft⟩ := exists_draft hdraft
  obtain ⟨h, hadd, heq⟩ := bind_eq_ok_iff.mp hread
  obtain ⟨rfl, rfl⟩ := Prod.mk.inj (Except.ok.inj heq)
  obtain ⟨-, rfl⟩ := (addParent_some_eq_ok_iff hdraft.root_lt hdraft.object hdraft.lt).mp hadd
  set leaf := b.addLeaf (parentField parent) (parentScalar parent) with hleaf
  have hgrown : Grown b leaf.1 := b.grown_addLeaf _ _
  have hobject : leaf.1.object? (b.property t.root).item = some o :=
    (Graph.object?_congr (hgrown.item_eq _ (Graph.lt_of_object? hdraft.object))).trans hdraft.object
  have hheld : ∀ {p scalar properties}, (leaf.1.setItem (b.property t.root).item
      (.object { o with properties })).held p = .scalar scalar ↔ leaf.1.held p = .scalar scalar :=
    fun {p scalar properties} => Graph.item_setProperties_iff hobject fun _ hc => nomatch hc
  have hreference : leaf.1.held ⟨b.properties.size⟩ = .scalar reference :=
    parentScalar_eq parent ▸ b.held_addLeaf (parentField parent) (parentScalar parent)
  refine ⟨{ o with properties := o.properties.put (parentProperty parent) ⟨b.properties.size⟩ }, ⟨b.properties.size⟩,
    ?_, ?_, hheld.mpr hreference, fun p hp scalar hscalar hname => ?_⟩
  · rw [Graph.property_setItem, hgrown.property_eq _ hdraft.root_lt, Graph.object?_eq_some_iff]
    exact Graph.item_setItem_self _ (Graph.lt_of_object? hobject)
  · exact (Registry.get?_put _ _ _ _).trans (if_pos rfl)
  · rw [hheld] at hscalar
    rcases Registry.mem_elements_put hp with rfl | hp
    · rw [Item.scalar.inj (hscalar.symm.trans hreference)]
      rfl
    · rw [(hdraft.has p hp).held_eq_scalar_iff hgrown.kept] at hscalar
      exact Graph.eq_string_of_parseProperty hdraft.parse_eq hdraft.object (hdraft.filed.get?_of_mem hp) hscalar hname

/-- **Sharing keeps the reference to a parent.** It may come to hold the scalar of a property beside it, but that is the
same scalar. -/
theorem refersTo_of_parse (hparse : parse g data = .ok (h, s)) (hparent : parentOf? data = some parent)
    (hdiscerning : ∀ g₀, read g data = .ok (g₀, s) → linked.Discerning g₀ (.property s.root)) : RefersTo h s parent := by
  rw [parse, bind_eq_ok_iff] at hparse
  obtain ⟨⟨g₀, t⟩, hread, heq⟩ := hparse
  obtain ⟨rfl, rfl⟩ := Prod.mk.inj (Except.ok.inj heq)
  obtain ⟨o, q, ho, hq, hheld, hkinds⟩ := exists_reference_of_read hread hparent
  obtain ⟨hplanted, hloose, -⟩ := planted_read hread
  have hg := hplanted.arboreal hloose.new
  obtain ⟨moves, hmoves, hmoved⟩ := hg.exists_moved_dedup (hdiscerning g₀ hread)
  set h := g₀.dedup t.root sharingLevel
  have hroot : t.rootItem h = (g₀.property t.root).item := by
    rw [rootItem, hmoved.held_eq, hmoves.lead_root hg]
  have hobject : t.rootObject h = { o with typeName := h.typeName (t.rootItem h) } :=
    rootObject_eq (hroot ▸ hmoved.object?_eq_some ho)
  refine ⟨q, by rw [property?, hobject]; exact hq, ?_⟩
  -- The property that leads the reference is beside it, and holds a scalar with the same fingerprint.
  have hreach : g₀.Leads (.property t.root) (.item (g₀.property t.root).item) :=
    .single (Graph.link_property_iff.mpr rfl)
  have hlead := hmoves.lead_mem hg hreach ho (Registry.mem_elements_of_get? hq)
  have hfingerprint := hmoves.fingerprint_lead q
  obtain ⟨scalar, hscalar⟩ := Item.scalar_of_fingerprint_eq hfingerprint hheld
  rw [hheld, hscalar] at hfingerprint
  obtain rfl := eq_reference_of_fingerprint_eq (hkinds _ hlead scalar hscalar) hfingerprint.symm
  rw [Graph.held, hmoved.held_eq, hmoved.scalar_iff]
  exact hscalar

/-! ### Other graphs -/

/-- Schemas that are alike refer to the same parents. -/
theorem Alike.refersTo {g' : Graph} {s' : Schema} (halike : Alike g g' s s') (hs : s.HasRoot g) (hs' : s'.HasRoot g')
    (hrefers : RefersTo g s parent) : RefersTo g' s' parent := by
  obtain ⟨q, hq, hheld⟩ := hrefers
  have hiso := halike.isomorphism
  have hroots := hiso.matches_of_object? (hiso.held .refl) hs.object hs'.object
  have hget := hroots.properties.get? (parentProperty parent)
  rw [← property?, ← property?, hq] at hget
  obtain ⟨q', hq', hpaired⟩ := Graph.exists_of_some_rel hget
  have hitems := hiso.item (hiso.held hpaired)
  rw [← Graph.held, ← Graph.held, hheld] at hitems
  generalize hitem : g'.held q' = item at hitems
  cases hitems
  exact ⟨q', hq', hitem⟩

theorem hasRoot_of_readAs (hs : ReadAs h data s) : s.HasRoot h := by
  obtain ⟨b, g, -, hparse, hgrown⟩ := hs
  obtain ⟨-, hroot, -⟩ := hasRoot_of_parse hparse
  exact hroot.kept hgrown.kept (hgrown.item_eq _ hroot.root.item_lt)

/-- A schema that has been read has the identifier and the parent that are given for it. -/
theorem ReadAs.id_and_parent_eq (hs : ReadAs h data s) : idOf? data = some s.id ∧ parentOf? data = s.parent := by
  obtain ⟨b, g, -, hparse, -⟩ := hs
  rw [parse, bind_eq_ok_iff] at hparse
  obtain ⟨⟨g₀, t⟩, hread, heq⟩ := hparse
  obtain ⟨-, rfl⟩ := Prod.mk.inj (Except.ok.inj heq)
  obtain ⟨id, parent, bases, body, next, hid, hparent, -, -, -, -, rfl⟩ := read_cases hread
  exact ⟨hid, hparent⟩

/-- A schema that is read among others refers to its parent, because it does if it is read alone. -/
theorem ReadAs.refersTo (hs : ReadAs h data s) (hparent : parentOf? data = some parent)
    (hdiscerning : ∀ g₀ t, read {} data = .ok (g₀, t) → linked.Discerning g₀ (.property t.root)) :
    RefersTo h s parent := by
  have hread := hs
  obtain ⟨b, g, hb, hparse, -⟩ := hread
  obtain ⟨⟨alone, t⟩, hparse', -⟩ :=
    (parse_reordered hb Graph.sound_empty (Entries.Reordered.refl data)).exists_of_left hparse
  have ht : ReadAs alone data t := ⟨{}, alone, Graph.sound_empty, hparse', .refl alone⟩
  exact (ht.alike hs (Entries.Reordered.refl data)).refersTo (hasRoot_of_readAs ht) (hasRoot_of_readAs hs)
    (refersTo_of_parse hparse' hparent fun g₀ hread => hdiscerning g₀ t hread)

/-! ### Joins -/

variable {all : Registry Schema} {t : Schema}

/-- A schema that is not joined keeps its reference, since its root object does not change. -/
theorem RefersTo.kept (hrefers : RefersTo g t parent) (ht : t.HasRoot g) (hgh : Kept g h)
    (hobject : t.rootObject h = t.rootObject g) : RefersTo h t parent := by
  obtain ⟨q, hq, hheld⟩ := hrefers
  exact ⟨q, by rwa [property?, hobject], (ht.has_of_property? hq).held_eq_scalar hgh hheld⟩

/-- **A join keeps references to parents.** A schema's own properties win, and a reference cannot be null. -/
theorem RefersTo.joined (hrefers : RefersTo g t parent) (ht : t ∈ all.elements) (hs : s ∈ all.elements)
    (hrooted : Rooted g all.elements) (hjoined : Lineage.Joined all s g h) : RefersTo h t parent := by
  have hroot := hrooted.hasRoot t ht
  by_cases hts : t = s
  · subst hts
    obtain ⟨q, hq, hheld⟩ := hrefers
    have hheld' := (hroot.has_of_property? hq).held_eq_scalar hjoined.kept hheld
    obtain ⟨q', hq', hreplaces⟩ := hjoined.own _ q hq
    obtain rfl := hreplaces.same fun hnull => by simp [hheld', Item.isNull, Scalar.isNull, reference] at hnull
    exact ⟨q', hq', hheld'⟩
  · exact hrefers.kept hroot hjoined.kept ((hjoined.frame hs hrooted).2 t ht hts)

theorem RefersTo.foldlM (ht : t ∈ all.elements) (order : List Schema) : ∀ {g : Graph}, RefersTo g t parent →
    Rooted g all.elements → (∀ s ∈ order, s ∈ all.elements) → order.foldlM (Lineage.joinStep all) g = .ok h →
    RefersTo h t parent := by
  induction order with
  | nil =>
    intro g hrefers _ _ hjoins
    exact Except.ok.inj hjoins ▸ hrefers
  | cons s order ih =>
    intro g hrefers hrooted hmem hjoins
    rw [List.foldlM_cons, bind_eq_ok_iff] at hjoins
    obtain ⟨next, hstep, hjoins⟩ := hjoins
    have hs : s ∈ all.elements := hmem s (by simp)
    have hjoined := Lineage.joined_of_joinStep_eq_ok hs hrooted hstep
    exact ih (hrefers.joined ht hs hrooted hjoined) (hjoined.frame hs hrooted).1 (fun u hu => hmem u (by simp [hu])) hjoins

end Schema

namespace Conversion

open Schema (idOf? parentOf? parentProperty RefersTo)

variable {w : Workspace} {supplementary generated : List Entries} {g h : Graph} {first second order : List Schema}
  {collected : Collected} {data : Entries} {parent : String}

/-- The schemas to generate are those that are given, in order. -/
theorem Reads.readAs (hreads : Reads supplementary generated first second g) :
    List.Forall₂ (Schema.ReadAs g) generated second := by
  obtain ⟨middle, hfirst, hsecond⟩ := hreads.read
  obtain ⟨hsound, -⟩ := Schema.readAs_of_parseEach supplementary Graph.sound_empty hfirst
  exact (Schema.readAs_of_parseEach generated hsound hsecond).2.2

/-- What has been prepared still refers to its parent. -/
theorem Prepares.refersTo (hprepares : Prepares supplementary generated first second g order h) {s : Schema}
    (hs : s ∈ second) (hread : Schema.ReadAs g data s) (hparent : parentOf? data = some parent)
    (hdiscerning : ∀ g₀ t, Schema.read {} data = .ok (g₀, t) → linked.Discerning g₀ (.property t.root)) :
    RefersTo h s parent := by
  have hmem := hprepares.mem_all_of_generated (hprepares.mem_generated_iff.mpr hs)
  exact (hread.refersTo hparent hdiscerning).foldlM hmem order
    (hprepares.assembled.parses.rooted.subset fun t ht => hprepares.mem_assembled ht)
    (fun t ht => hprepares.mem_all_of_order ht) hprepares.joins

/-- What a conversion has filed as root objects: those of the schemas that have been prepared, which are named by the
identifiers of the schemas. -/
structure Crowns (supplementary generated : List Entries) (second : List Schema) (collected : Collected) (h : Graph) :
    Prop where
  prepares : ∃ first g order, Prepares supplementary generated first second g order h
  filed : collected.topLevel.Filed h.typeName
  mem_iff : ∀ k, k ∈ collected.topLevel.elements ↔ ∃ s ∈ second, s.rootItem h = k
  typeName_eq : ∀ s ∈ second, h.typeName (s.rootItem h) = s.id

theorem exists_crowns (hrun : (convert supplementary generated).run.run {} = (.ok collected, w)) :
    ∃ second v, (prepare supplementary generated).run.run {} = (.ok (schemasOf second), v) ∧ v.graph = w.graph ∧
      Crowns supplementary generated second collected w.graph := by
  obtain ⟨hresult, hgraph⟩ := run_convert supplementary generated {}
  rw [hrun] at hresult hgraph
  rcases hprepare : (prepare supplementary generated).run.run {} with ⟨e | schemas, v⟩
  · rw [hprepare] at hresult
    exact nomatch hresult
  rw [hprepare] at hresult hgraph
  replace hgraph : w.graph = v.graph := hgraph
  obtain ⟨first, second, g, order, hprepares, rfl⟩ := prepare_eq_ok_iff.mp ⟨v, hprepare, rfl⟩
  obtain ⟨hschemas, given, R, rank, hcanopy, hrooted, hgiven⟩ := exists_canopy_of_prepare hprepare
  obtain ⟨found, hcollect, -, hfiled, -, hmem, -⟩ | ⟨e, hcollect, -⟩ := collect_cases hcanopy hrooted hgiven hschemas
  · obtain rfl := Except.ok.inj (hresult.trans hcollect)
    refine ⟨second, v, rfl, hgraph.symm, hgraph ▸ ⟨⟨first, g, order, hprepares⟩, hfiled, fun k => ?_, fun s hs => ?_⟩⟩
    · simp only [hmem, hprepares.mem_generated_iff]
    · exact hcanopy.typeName_eq s (hgiven s (hprepares.mem_generated_iff.mpr hs))
  · exact nomatch hresult.trans hcollect

namespace Crowns

variable (hcrowns : Crowns supplementary generated second collected h)

include hcrowns

/-- There is one root object for each schema that is given, under its identifier. -/
theorem keys_perm : (collected.topLevel.keys.map some).Perm (generated.map idOf?) := by
  obtain ⟨first, g, order, hprepares⟩ := hcrowns.prepares
  have hids : generated.map idOf? = (second.map Schema.id).map some := by
    rw [List.map_map, ← List.forall₂_eq_eq_eq, List.forall₂_map_left_iff, List.forall₂_map_right_iff]
    exact hprepares.readAs.imp fun _ _ hread => hread.id_and_parent_eq.1
  rw [hids]
  refine List.Perm.map some ((List.perm_ext_iff_of_nodup ?_ ?_).mpr fun name => ?_)
  · exact hcrowns.filed.ascending.imp fun hlt => ne_of_lt hlt
  · have happart := hprepares.apart
    rw [List.map_append] at happart
    exact happart.of_append_right
  · rw [hcrowns.filed.keys_eq, List.mem_map, List.mem_map]
    constructor
    · rintro ⟨k, hk, rfl⟩
      obtain ⟨s, hs, rfl⟩ := (hcrowns.mem_iff k).mp hk
      exact ⟨s, hs, (hcrowns.typeName_eq s hs).symm⟩
    · rintro ⟨s, hs, rfl⟩
      exact ⟨s.rootItem h, (hcrowns.mem_iff _).mpr ⟨s, hs, rfl⟩, hcrowns.typeName_eq s hs⟩

theorem get?_id {s : Schema} (hs : s ∈ second) : collected.topLevel.get? s.id = some (s.rootItem h) :=
  hcrowns.filed.get?_eq_some_iff.mpr ⟨(hcrowns.mem_iff _).mpr ⟨s, hs, rfl⟩, hcrowns.typeName_eq s hs⟩

end Crowns

/-- **Root objects refer to their parents.** A conversion files one object for each schema that it is given to generate:
its root object, under its identifier, which is the type name of the object as well. If a parent is given for the schema,
the object has a property that refers to it, on top and with a scalar that is a text, must be present, is not null and
has no default, provided that the digests tell the subtrees of the schema apart. A schema is refused for its parent
exactly if it could be read otherwise and its body defines a property with that name. -/
theorem convert_files_roots_with_parents :
    (∀ supplementary generated collected w, (convert supplementary generated).run.run {} = (.ok collected, w) →
      (∀ data ∈ generated, ∀ g s, Schema.read {} data = .ok (g, s) → linked.Discerning g (.property s.root)) →
      (collected.topLevel.keys.map some).Perm (generated.map idOf?) ∧
      ∃ schemas v, (prepare supplementary generated).run.run {} = (.ok schemas, v) ∧ v.graph = w.graph ∧
        ∀ data ∈ generated, ∃ s ∈ schemas.elements, idOf? data = some s.id ∧ parentOf? data = s.parent ∧
          collected.topLevel.get? s.id = some (s.rootItem w.graph) ∧
          ∃ o, w.graph.object? (s.rootItem w.graph) = some o ∧ o.typeName = s.id ∧
            ∀ parent, s.parent = some parent → ∃ q, o.properties.get? (parentProperty parent) = some q ∧
              w.graph.propertyName q = parentProperty parent ∧ (w.graph.property q).placement = .top ∧
              w.graph.held q = .scalar { kind := .string, required := true, nullable := false, default := none }) ∧
    ∀ g data id parent, Schema.parse g data = .error (.parentCollision id parent) ↔ parentOf? data = some parent ∧
      ∃ h s body, Schema.parse g (data.without "parent") = .ok (h, s) ∧ s.id = id ∧ Schema.bodyOf id data = .ok body ∧
        parentProperty parent ∈ body.definedNames := by
  refine ⟨fun supplementary generated collected w hrun hdiscerning => ?_,
    fun g data id parent => Schema.parse_eq_parentCollision_iff⟩
  obtain ⟨second, v, hprepare, hgraph, hcrowns⟩ := exists_crowns hrun
  obtain ⟨first, g, order, hprepares⟩ := hcrowns.prepares
  refine ⟨hcrowns.keys_perm, schemasOf second, v, hprepare, hgraph, fun data hdata => ?_⟩
  obtain ⟨s, hs, hread⟩ := exists_mem_of_forall₂ hprepares.readAs hdata
  obtain ⟨hid, hparent⟩ := hread.id_and_parent_eq
  have hmem := hprepares.mem_generated_iff.mpr hs
  obtain ⟨htopped, hrooted⟩ := hprepares.topped
  have hroot := hrooted.hasRoot s (hprepares.mem_all_of_generated hmem)
  refine ⟨s, hmem, hid, hparent, hcrowns.get?_id hs, s.rootObject w.graph, hroot.object, ?_, fun parent hs' => ?_⟩
  · rw [← Graph.typeName_of_object? hroot.object, hcrowns.typeName_eq s hs]
  · obtain ⟨q, hq, hheld⟩ := hprepares.refersTo hs hread (hparent.trans hs') (hdiscerning data hdata)
    obtain ⟨hqmem, hname⟩ := hroot.filed.get?_eq_some_iff.mp hq
    exact ⟨q, hq, hname, (htopped s (hprepares.mem_all_of_generated hmem) q hqmem).top, hheld⟩

/-! ### Consignments of a depot -/

section Consignments

open Schema (definition parse)
open Lineage (joinStep)

/-- A voucher counts depots. -/
def voucherData : Entries :=
  [(.text "id", .text "voucher"), (.text "schema", .mapping [(.text "type", .text "object"),
    (.text "properties", .mapping [(.text "depot_id", .mapping (definition "integer"))])])]

/-- A consignment is a voucher that belongs to a depot and has the given property, which is a required text. -/
def consignmentData (name : String) : Entries :=
  [(.text "id", .text "consignment"), (.text "parent", .text "depot"), (.text "extends", .list [.text "voucher"]),
    (.text "schema", .mapping [(.text "type", .text "object"), (.text "required", .list [.text name]),
      (.text "properties", .mapping [(.text name, .mapping (definition "string"))])])]

/-- The voucher, and the graph with it. -/
def voucher : Graph × Schema :=
  (Schema.read {} voucherData).toOption.getD default

/-- The consignment with a code before anything is shared. -/
def consignmentRead : Graph × Schema :=
  (Schema.read voucher.1 (consignmentData "code")).toOption.getD default

/-- The consignment: the reference to the depot holds the scalar of the code. -/
def consignment : Graph × Schema :=
  (consignmentRead.1.redirect ⟨.property ⟨4⟩, .item ⟨2⟩, .item ⟨4⟩⟩, consignmentRead.2)

theorem parse_voucher : parse {} voucherData = .ok voucher := by
  refine Schema.parse_eq_of_plan_eq_nil (eq_ok_of_isSome_toOption (by decide +kernel)) ?_
  rw [Sharing.Linked.plan, Sharing.plan, Sharing.sweepTree, Sharing.candidates_eq_insertionSort]
  decide +kernel

theorem parse_consignment : parse voucher.1 (consignmentData "code") = .ok consignment := by
  refine Schema.parse_eq_of_plan_eq [⟨.property ⟨4⟩, .item ⟨2⟩, .item ⟨4⟩⟩]
    (eq_ok_of_isSome_toOption (by decide +kernel)) ?_
  rw [Sharing.Linked.plan, Sharing.plan, Sharing.sweepTree, Sharing.candidates_eq_insertionSort]
  decide +kernel

/-- The graph after the consignment has been joined with the voucher. -/
def consignmentJoined : Graph :=
  ([voucher.2, consignment.2].foldlM (joinStep (schemasOf [voucher.2, consignment.2])) consignment.1).toOption.getD default

theorem prepares_consignment : Prepares [voucherData] [consignmentData "code"] [voucher.2] [consignment.2] consignment.1
    [voucher.2, consignment.2] consignmentJoined := by
  refine ⟨⟨⟨voucher.1, ?_, ?_⟩, by decide +kernel⟩, ?_, eq_ok_of_isSome_toOption (by decide +kernel)⟩
  · simp only [Schema.parseEach, parse_voucher, bind, Except.bind]
    rfl
  · simp only [Schema.parseEach, parse_consignment, bind, Except.bind]
    rfl
  · rw [eq_ok_of_isSome_toOption (x := Lineage.order _ _) (by decide +kernel)]
    exact congrArg _ (by decide +kernel)

/-- The consignment with a code, read alone. -/
def consignmentAlone : Graph × Schema :=
  (Schema.read {} (consignmentData "code")).toOption.getD default

/-- A consignment that names its depot itself, read without the depot. -/
def plainConsignment : Graph × Schema :=
  (Schema.read {} ((consignmentData "depot_id").without "parent")).toOption.getD default

theorem parse_plainConsignment : parse {} ((consignmentData "depot_id").without "parent") = .ok plainConsignment := by
  refine Schema.parse_eq_of_plan_eq_nil (eq_ok_of_isSome_toOption (by decide +kernel)) ?_
  rw [Sharing.Linked.plan, Sharing.plan, Sharing.sweepTree, Sharing.candidates_eq_insertionSort]
  decide +kernel

/-- The consignment refers to its depot by a text, which it shares with its code, though the voucher that it extends
counts depots. A consignment that names its depot itself is refused. -/
theorem consignment_refers_to_depot :
    (∃ collected w, (convert [voucherData] [consignmentData "code"]).run.run {} = (.ok collected, w) ∧
      collected.topLevel.keys = ["consignment"] ∧
      ∃ k o q, collected.topLevel.get? "consignment" = some k ∧ w.graph.object? k = some o ∧
        o.properties.get? "depot_id" = some q ∧ (w.graph.property q).placement = .top ∧
        w.graph.held q = .scalar { kind := .string, required := true, nullable := false, default := none } ∧
        ∃ p, o.properties.get? "code" = some p ∧ (w.graph.property p).item = (w.graph.property q).item) ∧
    parse {} (consignmentData "depot_id") = .error (.parentCollision "consignment" "depot") := by
  obtain ⟨hconvert, hcollision⟩ := convert_files_roots_with_parents
  constructor
  · obtain ⟨v, hprepare, hgraph⟩ := prepare_eq_ok_iff.mpr ⟨_, _, _, _, prepares_consignment, rfl⟩
    obtain ⟨hresult, hsame⟩ := run_convert [voucherData] [consignmentData "code"] {}
    have hcollect : collect consignmentJoined (schemasOf [consignment.2]) = .ok _ :=
      eq_ok_of_isSome_toOption (by decide +kernel)
    rw [hprepare, hgraph] at hresult
    rw [hprepare, hgraph] at hsame
    have hrun : (convert [voucherData] [consignmentData "code"]).run.run {} = (.ok _, _) :=
      Prod.ext (hresult.trans hcollect) rfl
    have hdiscerning : ∀ data ∈ [consignmentData "code"], ∀ g s, Schema.read {} data = .ok (g, s) →
        linked.Discerning g (.property s.root) := by
      intro data hdata g s hread
      obtain rfl := List.mem_singleton.mp hdata
      have halone : Schema.read {} (consignmentData "code") = .ok consignmentAlone :=
        eq_ok_of_isSome_toOption (by decide +kernel)
      have htold : linked.Discerning consignmentAlone.1 (.property consignmentAlone.2.root) := by decide +kernel
      rwa [Except.ok.inj (halone.symm.trans hread)] at htold
    obtain ⟨hkeys, schemas, v', hprepare', -, hroots⟩ := hconvert _ _ _ _ hrun hdiscerning
    obtain ⟨hok, -⟩ := Prod.mk.inj (hprepare.symm.trans hprepare')
    obtain rfl := Except.ok.inj hok
    obtain ⟨s, hs, hid, hparent, hget, o, ho, -, hrefers⟩ := hroots _ (List.mem_singleton_self _)
    obtain ⟨q, hq, -, htop, hheld⟩ := hrefers "depot" (hparent.symm.trans (by decide +kernel))
    have hshared : ∃ p, (consignment.2.rootObject consignmentJoined).properties.get? "code" = some p ∧
        ((consignment.2.rootObject consignmentJoined).properties.get? "depot_id").map
          (fun q => (consignmentJoined.property q).item) = some (consignmentJoined.property p).item :=
      ⟨⟨2⟩, by decide +kernel⟩
    have hname : s.id = "consignment" := Option.some.inj (hid.symm.trans (by decide +kernel))
    obtain rfl : s = consignment.2 := List.mem_singleton.mp hs
    rw [← hsame, Schema.rootObject_eq ho] at hshared
    obtain ⟨p, hp, hitem⟩ := hshared
    have hq' : o.properties.get? "depot_id" = some q := hq
    refine ⟨_, _, hrun, ?_, _, o, q, hname ▸ hget, ho, hq', htop, hheld, p, hp, ?_⟩
    · exact List.map_injective_iff.mpr (Option.some_injective _) (List.perm_singleton.mp hkeys)
    · rw [hq', Option.map_some] at hitem
      exact (Option.some.inj hitem).symm
  · exact (hcollision _ _ _ _).mpr ⟨rfl, _, _, _, parse_plainConsignment, by decide +kernel, rfl, by decide +kernel⟩

end Consignments

end Conversion

end Schemata
