import Schemata.Proofs.Invariance.Collection
import Schemata.Proofs.Invariance.Joins
import Schemata.Proofs.Invariance.Schemas

/-!
# Conversions in another order

The order of the schemas, of the definitions of properties and of the names in a list does not matter to a conversion
(`Conversion.convert_ignores_order`). Other nodes are made in another order, and schemas are joined in another order. But
the graphs are isomorphic: after the schemas have been read (`Schema.parseEach_reordered`), after they have been joined
(`Lineage.Counterparts.isomorphism_after`), and so where objects are collected from them (`collect_isomorphic`).
-/

namespace Schemata.Conversion

open Schemata.Graph (Isomorphism)
open Lineage (Counterparts Joins)
open Schema (AlikeAll ReorderedAll Roofed)

variable {g g' h h' : Graph} {s s' : Schema} {supplementary supplementary' generated generated' : List Entries}
  {first first' second second' order order' : List Schema}

/-! ### Preparations -/

theorem Reads.rooted (hreads : Reads supplementary generated first second g) :
    Schema.Rooted g (schemasOf (first ++ second)).elements :=
  hreads.assembled.parses.rooted.subset fun _ hs => hreads.mem_assembled hs

/-- The joins of a preparation. -/
def Prepares.run (hprepares : Prepares supplementary generated first second g order h) : Joins where
  all := schemasOf (first ++ second)
  before := g
  order := order
  after := h
  rooted := hprepares.rooted
  mem _ hs := hprepares.mem_all_of_order hs
  nodup := hprepares.isJoinOrder.nodup
  bases_first := hprepares.isJoinOrder.bases_first
  joins := hprepares.joins

theorem Prepares.sound (hprepares : Prepares supplementary generated first second g order h) : h.Sound := by
  have hroofed : Roofed g (schemasOf (first ++ second)).elements :=
    hprepares.assembled.roofed fun _ hs => hprepares.mem_assembled hs
  exact (hroofed.foldlM order hprepares.rooted (fun _ hs => hprepares.mem_all_of_order hs) hprepares.joins).sound

/-- Schemas that are alike and have different identifiers are counterparts. -/
theorem counterparts (halike : AlikeAll g g' first first') (hids : (first.map Schema.id).Nodup)
    (hapart : Schema.Apart g first) (hapart' : Schema.Apart g' first') :
    Counterparts (schemasOf first) (schemasOf first') g g' (AlikeAll.pairs g g' first first') := by
  have hids' := halike.ids_perm.nodup_iff.mp hids
  have hmem : ∀ {s}, s ∈ (schemasOf first).elements ↔ s ∈ first := Registry.mem_elements_ofList hids
  have hmem' : ∀ {s'}, s' ∈ (schemasOf first').elements ↔ s' ∈ first' := Registry.mem_elements_ofList hids'
  -- The schema with the same identifier is the one that is alike.
  have hsame : ∀ {s s'}, s ∈ first → s' ∈ first' → s.id = s'.id → Schema.Alike g g' s s' := by
    intro s s' hs hs' hid
    obtain ⟨t', ht', halike'⟩ := halike.exists_of_left hs
    obtain rfl := List.inj_on_of_nodup_map hids' hs' ht' (hid.symm.trans halike'.id_eq)
    exact halike'
  refine ⟨Registry.filed_ofList _ _, Registry.filed_ofList _ _, halike.isomorphism hapart hapart' hids, ?_, ?_, ?_, ?_⟩
  · intro s hs s' hs' hid
    exact ⟨s, hmem.mp hs, s', hmem'.mp hs', hsame (hmem.mp hs) (hmem'.mp hs') hid, .refl⟩
  · intro s hs s' hs' hid base
    exact (hsame (hmem.mp hs) (hmem'.mp hs') hid).bases_perm.mem_iff
  · intro s hs
    obtain ⟨s', hs', halike'⟩ := halike.exists_of_left (hmem.mp hs)
    exact ⟨s', hmem'.mpr hs', halike'.id_eq⟩
  · intro s' hs'
    obtain ⟨s, hs, halike'⟩ := halike.symm.exists_of_left (hmem'.mp hs')
    exact ⟨s, hmem.mpr hs, halike'.id_eq.symm⟩

theorem sound_of_convert {found : Collected} {w : Workspace}
    (hrun : (convert supplementary generated).run.run {} = (.ok found, w)) : w.graph.Sound := by
  obtain ⟨hresult, hgraph⟩ := run_convert supplementary generated {}
  rw [hrun] at hresult hgraph
  obtain ⟨schemas, hschemas, -⟩ := bind_eq_ok_iff.mp hresult.symm
  obtain ⟨first, second, g, order, hprepares, -⟩ := prepare_eq_ok_iff.mp ⟨_, Prod.ext hschemas rfl, hgraph.symm⟩
  exact hprepares.sound

section Alike

variable (hreads : Reads supplementary generated first second g)
  (hreads' : Reads supplementary' generated' first' second' g') (hfirst : AlikeAll g g' first first')
  (hsecond : AlikeAll g g' second second')

include hreads hreads' hsecond

theorem exists_generated (hs : s ∈ (schemasOf second).elements) : ∃ s' ∈ (schemasOf second').elements, s.id = s'.id := by
  obtain ⟨s', hs', halike⟩ := hsecond.exists_of_left (hreads.mem_generated_iff.mp hs)
  exact ⟨s', hreads'.mem_generated_iff.mpr hs', halike.id_eq⟩

include hfirst

theorem Reads.counterparts : Counterparts (schemasOf (first ++ second)) (schemasOf (first' ++ second')) g g'
    (AlikeAll.pairs g g' (first ++ second) (first' ++ second')) :=
  Conversion.counterparts (hfirst.append hsecond) hreads.apart (Schema.apart_of_parseEach hreads.parseEach)
    (Schema.apart_of_parseEach hreads'.parseEach)

/-- The counterpart of a schema that is joined is joined. -/
theorem exists_joined (horder : Lineage.IsJoinOrder (schemasOf (first ++ second)) (schemasOf second) order)
    (horder' : Lineage.IsJoinOrder (schemasOf (first' ++ second')) (schemasOf second') order') (hs : s ∈ order) :
    ∃ s' ∈ order', s.id = s'.id := by
  obtain ⟨s', hs', hid⟩ := (hreads.counterparts hreads' hfirst hsecond).exists_reachable
    (fun _ hr => hreads.mem_all_of_generated hr) (fun _ hr' => hreads'.mem_all_of_generated hr')
    (fun _ hr => exists_generated hreads hreads' hsecond hr) ((horder.mem_iff s).mp hs)
  exact ⟨s', (horder'.mem_iff s').mpr hs', hid⟩

end Alike

/-- **Schemas that are alike are prepared alike**: if one preparation comes through, then the other one does, and the
graphs that they come to are isomorphic. -/
theorem Prepares.exists_of_alike (hprepares : Prepares supplementary generated first second g order h)
    (hreads' : Reads supplementary' generated' first' second' g') (hfirst : AlikeAll g g' first first')
    (hsecond : AlikeAll g g' second second') :
    ∃ order' h' R, Prepares supplementary' generated' first' second' g' order' h' ∧
      Abreast h h' R (schemasOf second) (schemasOf second') := by
  have hreads := hprepares.toReads
  have hall := hreads.counterparts hreads' hfirst hsecond
  have hroots : ∀ r ∈ (schemasOf second).elements, r ∈ (schemasOf (first ++ second)).elements :=
    fun _ hr => hreads.mem_all_of_generated hr
  have hroots' : ∀ r' ∈ (schemasOf second').elements, r' ∈ (schemasOf (first' ++ second')).elements :=
    fun _ hr' => hreads'.mem_all_of_generated hr'
  obtain ⟨order', horder'⟩ := hall.exists_order hroots hroots'
    (fun _ hr' => exists_generated hreads' hreads hsecond.symm hr') hprepares.order_eq
  have hjoin' := Lineage.isJoinOrder_of_order_eq_ok hall.filed' hroots' horder'
  have hleft : ∀ s ∈ order, ∃ s' ∈ order', s.id = s'.id :=
    fun s hs => exists_joined hreads hreads' hfirst hsecond hprepares.isJoinOrder hjoin' hs
  have hright : ∀ s' ∈ order', ∃ s ∈ order, s.id = s'.id := by
    intro s' hs'
    obtain ⟨s, hs, hid⟩ := exists_joined hreads' hreads hfirst.symm hsecond.symm hjoin' hprepares.isJoinOrder hs'
    exact ⟨s, hs, hid.symm⟩
  obtain ⟨h', hjoins'⟩ := Counterparts.exists_foldlM_eq_ok (J := hprepares.run) hall hreads'.rooted
    (fun s' hs' => ((hjoin'.mem_iff s').mp hs').mem_elements hroots') hjoin'.nodup hjoin'.bases_first hright
  have hprepares' : Prepares supplementary' generated' first' second' g' order' h' := ⟨hreads', horder', hjoins'⟩
  have hruns : Counterparts hprepares.run.all hprepares'.run.all hprepares.run.before hprepares'.run.before _ := hall
  refine ⟨order', h', _, hprepares', hruns.isomorphism_after hleft hright,
    fun s hs => hprepares.run.hasRoot (hroots s hs), fun s' hs' => hprepares'.run.hasRoot (hroots' s' hs'),
    fun s hs => ?_, fun s' hs' => ?_⟩
  · obtain ⟨s', hs', hid⟩ := exists_generated hreads hreads' hsecond hs
    exact ⟨s', hs', hid, .old (hall.root s (hroots s hs) s' (hroots' s' hs') hid)⟩
  · obtain ⟨s, hs, hid⟩ := exists_generated hreads' hreads hsecond.symm hs'
    exact ⟨s, hs, hid.symm, .old (hall.root s (hroots s hs) s' (hroots' s' hs') hid.symm)⟩

/-! ### Inputs in another order -/

/-- Read the supplementary schemas and the schemas to generate. -/
def readBoth (supplementary generated : List Entries) : Except SchemaError (Graph × List Schema × List Schema) := do
  let (g, first) ← Schema.parseEach {} supplementary
  let (g, second) ← Schema.parseEach g generated
  return (g, first, second)

theorem reads_iff : Reads supplementary generated first second g ↔
    readBoth supplementary generated = .ok (g, first, second) ∧ ((first ++ second).map Schema.id).Nodup := by
  rw [readBoth, bind_eq_ok_iff]
  constructor
  · rintro ⟨⟨middle, hfirst, hsecond⟩, happart⟩
    exact ⟨⟨(middle, first), hfirst, bind_eq_ok_iff.mpr ⟨(g, second), hsecond, rfl⟩⟩, happart⟩
  · rintro ⟨⟨⟨middle, _⟩, hfirst, hboth⟩, happart⟩
    obtain ⟨⟨_, _⟩, hsecond, heq⟩ := bind_eq_ok_iff.mp hboth
    cases heq
    exact ⟨⟨middle, hfirst, hsecond⟩, happart⟩

section Reordered

variable (hsupplementary : ReorderedAll supplementary supplementary') (hgenerated : ReorderedAll generated generated')

include hsupplementary hgenerated

theorem readBoth_reordered :
    ExceptRel (fun both both' => AlikeAll both.1 both'.1 both.2.1 both'.2.1 ∧ AlikeAll both.1 both'.1 both.2.2 both'.2.2)
      (readBoth supplementary generated) (readBoth supplementary' generated') := by
  refine (Schema.parseEach_reordered Graph.sound_empty Graph.sound_empty hsupplementary).bind ?_
  rintro ⟨middle, first⟩ ⟨middle', first'⟩ hread hread' hfirst
  obtain ⟨hsound, -⟩ := Schema.readAs_of_parseEach supplementary Graph.sound_empty hread
  obtain ⟨hsound', -⟩ := Schema.readAs_of_parseEach supplementary' Graph.sound_empty hread'
  refine (Schema.parseEach_reordered hsound hsound' hgenerated).bind ?_
  rintro ⟨g, second⟩ ⟨g', second'⟩ hnext hnext' hsecond
  obtain ⟨-, hgrown, -⟩ := Schema.readAs_of_parseEach generated hsound hnext
  obtain ⟨-, hgrown', -⟩ := Schema.readAs_of_parseEach generated' hsound' hnext'
  exact .ok ⟨hfirst.grown hgrown hgrown', hsecond⟩

/-- **Inputs in another order are prepared alike**, or neither can be prepared. -/
theorem prepare_reordered :
    ExceptRel (fun schemas schemas' => ∃ R,
        Abreast ((prepare supplementary generated).run.run {}).2.graph
          ((prepare supplementary' generated').run.run {}).2.graph R schemas schemas')
      ((prepare supplementary generated).run.run {}).1 ((prepare supplementary' generated').run.run {}).1 := by
  have hread := readBoth_reordered hsupplementary hgenerated
  have hok : ∀ {supplementary generated : List Entries} {schemas : Registry Schema},
      ((prepare supplementary generated).run.run {}).1 = .ok schemas → ∃ first second g order,
        Prepares supplementary generated first second g order ((prepare supplementary generated).run.run {}).2.graph ∧
          schemas = schemasOf second :=
    fun hschemas => prepare_eq_ok_iff.mp ⟨_, Prod.ext hschemas rfl, rfl⟩
  refine exceptRel_of_forall (fun schemas hschemas => ?_) fun schemas' hschemas' => ?_
  · obtain ⟨first, second, g, order, hprepares, rfl⟩ := hok hschemas
    obtain ⟨hboth, happart⟩ := reads_iff.mp hprepares.toReads
    obtain ⟨⟨g', first', second'⟩, hboth', hfirst, hsecond⟩ := hread.exists_of_left hboth
    have happart' := (hfirst.append hsecond).ids_perm.nodup_iff.mp happart
    obtain ⟨order', h', R, hprepares', habreast⟩ :=
      hprepares.exists_of_alike (reads_iff.mpr ⟨hboth', happart'⟩) hfirst hsecond
    obtain ⟨w', hrun', rfl⟩ := prepare_eq_ok_iff.mpr ⟨first', second', g', order', hprepares', rfl⟩
    rw [hrun']
    exact ⟨schemasOf second', rfl, R, habreast⟩
  · obtain ⟨first', second', g', order', hprepares', rfl⟩ := hok hschemas'
    obtain ⟨hboth', happart'⟩ := reads_iff.mp hprepares'.toReads
    obtain ⟨⟨g, first, second⟩, hboth, hfirst, hsecond⟩ := hread.exists_of_right hboth'
    have happart := (hfirst.append hsecond).ids_perm.nodup_iff.mpr happart'
    obtain ⟨order, h, R, hprepares, -⟩ :=
      hprepares'.exists_of_alike (reads_iff.mpr ⟨hboth, happart⟩) hfirst.symm hsecond.symm
    obtain ⟨w, hrun, -⟩ := prepare_eq_ok_iff.mpr ⟨first, second, g, order, hprepares, rfl⟩
    rw [hrun]
    exact ⟨schemasOf second, rfl⟩

theorem convert_reordered :
    ExceptRel (fun found found' => ∃ R,
        Isomorphism ((convert supplementary generated).run.run {}).2.graph
          ((convert supplementary' generated').run.run {}).2.graph R ∧
        found.topLevel.Rel (fun i i' => R (.item i) (.item i')) found'.topLevel ∧
        found.all.Rel (fun i i' => R (.item i) (.item i')) found'.all)
      ((convert supplementary generated).run.run {}).1 ((convert supplementary' generated').run.run {}).1 := by
  obtain ⟨hresult, hgraph⟩ := run_convert supplementary generated {}
  obtain ⟨hresult', hgraph'⟩ := run_convert supplementary' generated' {}
  rw [hresult, hresult', hgraph, hgraph']
  refine (prepare_reordered hsupplementary hgenerated).bind fun schemas schemas' hok hok' habreast => ?_
  obtain ⟨R, habreast⟩ := habreast
  obtain ⟨hschemas, given, S, rank, hcanopy, hrooted, hgiven⟩ := exists_canopy_of_prepare (Prod.ext hok rfl)
  obtain ⟨hschemas', given', S', rank', hcanopy', hrooted', hgiven'⟩ := exists_canopy_of_prepare (Prod.ext hok' rfl)
  exact (collect_isomorphic habreast hcanopy hcanopy' hrooted hrooted' hgiven hgiven' hschemas hschemas').imp
    fun _ _ _ _ hfound => ⟨R, habreast.isomorphism, hfound⟩

/-- **The order of the input does not matter.** Inputs that differ in the order of the schemas in both lists, of the
definitions of properties, of required names and of bases can both be converted or neither. If they can, then objects are
collected under the same names, from graphs that are isomorphic, and the sources are equal for all settings. -/
theorem convert_ignores_order :
    match (convert supplementary generated).run.run {}, (convert supplementary' generated').run.run {} with
    | (.ok found, w), (.ok found', w') =>
      found.topLevel.keys = found'.topLevel.keys ∧ found.all.keys = found'.all.keys ∧
      (∃ R, Isomorphism w.graph w'.graph R ∧
        found.topLevel.Rel (fun i i' => R (.item i) (.item i')) found'.topLevel ∧
        found.all.Rel (fun i i' => R (.item i) (.item i')) found'.all) ∧
      ∀ settings, Go.generateCollected settings w.graph found = Go.generateCollected settings w'.graph found'
    | (.error _, _), (.error _, _) => True
    | _, _ => False := by
  have hboth := convert_reordered hsupplementary hgenerated
  rcases hrun : (convert supplementary generated).run.run {} with ⟨result, w⟩
  rcases hrun' : (convert supplementary' generated').run.run {} with ⟨result', w'⟩
  rw [hrun, hrun'] at hboth
  cases hboth with
  | error e e' => trivial
  | @ok found found' hfound =>
    obtain ⟨R, hiso, htop, hall⟩ := hfound
    have hwalks := (sound_of_convert hrun).walksEnd
    have hwalks' := (sound_of_convert hrun').walksEnd
    refine ⟨htop.keys_eq, hall.keys_eq, ⟨R, hiso, htop, hall⟩, fun settings => ?_⟩
    rw [Go.generateCollected, Go.generateCollected, hiso.records_eq hwalks hwalks' htop,
      hiso.records_eq hwalks hwalks' hall]

end Reordered

/-! ### A shipment -/

section Shipments

open Document (Role)
open Lineage (document documentData parse_document)
open Schema (definition parse)

/-- A load has a weight. -/
def loadData : Entries :=
  [(.text "id", .text "load"), (.text "schema", .mapping
    [(.text "type", .text "object"), (.text "properties", .mapping [(.text "weight", .mapping (definition "number"))])])]

/-- A shipment is a document and a load. Its bases, its required names and its properties are given in some order. -/
def shipmentData (bases required : List Document) (properties : Entries) : Entries :=
  [(.text "id", .text "shipment"), (.text "extends", .list bases), (.text "schema", .mapping
    [(.text "type", .text "object"), (.text "required", .list required), (.text "properties", .mapping properties)])]

/-- The port of a shipment. -/
def portEntry : Document × Document :=
  (.text "port", .mapping (definition "string"))

/-- The crate of a shipment. -/
def crateEntry : Document × Document :=
  (.text "crate", .mapping (definition "object"))

/-- A shipment. -/
def shipmentForward : Entries :=
  shipmentData [.text "document", .text "load"] [.text "note", .text "port"] [portEntry, crateEntry]

/-- The shipment, all the other way around. -/
def shipmentBackward : Entries :=
  shipmentData [.text "load", .text "document"] [.text "port", .text "note"] [crateEntry, portEntry]

theorem reordered_shipment : shipmentForward.Reordered Role.inSchema shipmentBackward := by
  refine .cons (.mk (.refl _ _)) (.cons (.mk (.names (.swap _ _ _))) (.cons (.mk (.definition ?_)) .nil))
  refine .cons (.mk (.refl _ _)) (.cons (.mk (.names (.swap _ _ _)))
    (.cons (.mk (.properties (.inr ⟨?_, .swap _ _ _⟩) ?_)) .nil))
  · decide +kernel
  · exact Entries.Reordered.refl _

/-- The load, and the graph with it and the document. -/
def load : Graph × Schema :=
  (Schema.read document.1 loadData).toOption.getD default

/-- The shipment, and the graph with all three. -/
def shipment : Graph × Schema :=
  (Schema.read load.1 shipmentForward).toOption.getD default

theorem parse_load : parse document.1 loadData = .ok load := by
  refine Schema.parse_eq_of_plan_eq_nil (eq_ok_of_isSome_toOption (by decide +kernel)) ?_
  rw [Sharing.Linked.plan, Sharing.plan, Sharing.sweepTree, Sharing.candidates_eq_insertionSort]
  decide +kernel

theorem parse_shipment : parse load.1 shipmentForward = .ok shipment := by
  refine Schema.parse_eq_of_plan_eq_nil (eq_ok_of_isSome_toOption (by decide +kernel)) ?_
  rw [Sharing.Linked.plan, Sharing.plan, Sharing.sweepTree, Sharing.candidates_eq_insertionSort]
  decide +kernel

/-- The graph after the shipment has been joined with its bases. -/
def shipmentJoined : Graph :=
  ([load.2, document.2, shipment.2].foldlM (Lineage.joinStep (schemasOf [document.2, load.2, shipment.2]))
    shipment.1).toOption.getD default

theorem prepares_shipment : Prepares [documentData, loadData] [shipmentForward] [document.2, load.2] [shipment.2]
    shipment.1 [load.2, document.2, shipment.2] shipmentJoined := by
  refine ⟨⟨⟨load.1, ?_, ?_⟩, by decide +kernel⟩, ?_, eq_ok_of_isSome_toOption (by decide +kernel)⟩
  · simp only [Schema.parseEach, parse_document, parse_load, bind, Except.bind]
    rfl
  · simp only [Schema.parseEach, parse_shipment, bind, Except.bind]
    rfl
  · rw [eq_ok_of_isSome_toOption (x := Lineage.order _ _) (by decide +kernel)]
    exact congrArg _ (by decide +kernel)

/-- What is collected from the shipment. -/
def collectedShipment : Collected :=
  (collect shipmentJoined (schemasOf [shipment.2])).toOption.getD default

theorem run_convert_shipment : ∃ w, (convert [documentData, loadData] [shipmentForward]).run.run {} =
    (.ok collectedShipment, w) := by
  obtain ⟨w, hprepare, hgraph⟩ := prepare_eq_ok_iff.mpr ⟨_, _, _, _, prepares_shipment, rfl⟩
  have hcollect : collect shipmentJoined (schemasOf [shipment.2]) = .ok collectedShipment :=
    eq_ok_of_isSome_toOption (by decide +kernel)
  have hresult := (run_convert [documentData, loadData] [shipmentForward] {}).1
  rw [hprepare, hgraph] at hresult
  exact ⟨_, Prod.ext (hresult.trans hcollect) rfl⟩

/-- The shipment is converted to the same sources from both inputs, though its nodes are made in another order. -/
theorem shipment_ignores_order :
    ReorderedAll [documentData, loadData] [loadData, documentData] ∧ ReorderedAll [shipmentForward] [shipmentBackward] ∧
    ∃ found w found' w', (convert [documentData, loadData] [shipmentForward]).run.run {} = (.ok found, w) ∧
      (convert [loadData, documentData] [shipmentBackward]).run.run {} = (.ok found', w') ∧
      found'.topLevel.keys = ["shipment"] ∧ found'.all.keys = ["shipment", "shipment_crate"] ∧
      ∀ settings, Go.generateCollected settings w.graph found = Go.generateCollected settings w'.graph found' := by
  have hsupplementary : ReorderedAll [documentData, loadData] [loadData, documentData] :=
    ⟨_, .swap _ _ _, .cons (.refl _) (.cons (.refl _) .nil)⟩
  have hgenerated : ReorderedAll [shipmentForward] [shipmentBackward] := ⟨_, .refl _, .cons reordered_shipment .nil⟩
  obtain ⟨w, hrun⟩ := run_convert_shipment
  have hboth := convert_ignores_order hsupplementary hgenerated
  rw [hrun] at hboth
  rcases hrun' : (convert [loadData, documentData] [shipmentBackward]).run.run {} with ⟨e | found', w'⟩
  · rw [hrun'] at hboth
    exact hboth.elim
  · rw [hrun'] at hboth
    obtain ⟨htop, hall, -, hsources⟩ := hboth
    refine ⟨hsupplementary, hgenerated, collectedShipment, w, found', w', hrun, rfl, ?_, ?_, hsources⟩
    · rw [← htop]
      decide +kernel
    · rw [← hall]
      decide +kernel

end Shipments

end Schemata.Conversion
