import Schemata.Proofs.Lineage.Discovery
import Schemata.Proofs.Lineage.Joining
import Schemata.Proofs.Order

/-!
# The order of the joins

`Lineage.order` puts the schemas that the roots extend into an order in which bases come first. The search of
`Schemata.Order` goes from bases to the schemas that extend them, so a path of its links is a path of extensions
backwards, and its cycles are the cycles of extensions (`onCycle_extending_iff`).

`resolve_graph_errors_and_order` says when a run of `Lineage.resolve` reports a missing base or a cycle, that what it
reports is true, and that the schemas are joined in an order with bases first if there is nothing to report.
-/

namespace Schemata.Lineage

open Relation (TransGen)

variable {all roots : Registry Schema} {found : List Schema} {s t : Schema}

/-- An order in which schemas can be joined: every reachable schema once, bases first. -/
structure IsJoinOrder (all roots : Registry Schema) (schemas : List Schema) : Prop where
  /-- No schema is there twice. -/
  nodup : schemas.Nodup
  /-- Exactly the reachable schemas are there. -/
  mem_iff : ∀ s, s ∈ schemas ↔ Reachable all roots s
  /-- What a schema extends comes before it. -/
  bases_first : ∀ earlier s later, schemas = earlier ++ s :: later → ∀ t, Extends all s t → t ∈ earlier

/-! ### Links between the found schemas -/

section Links

variable (hfound : (found.map Schema.id).Nodup)

include hfound

theorem mem_extending : t ∈ extending found s ↔ t ∈ found ∧ s.id ∈ t.bases := by
  rw [extending, List.mem_filter, Registry.mem_elements_ofList hfound, List.contains_iff_mem]

theorem mem_extended : t ∈ extended found s ↔ t ∈ found ∧ t.id ∈ s.bases := by
  rw [extended, List.mem_filterMap]
  constructor
  · rintro ⟨base, hbase, hfind⟩
    have hid : t.id = base := by simpa using List.find?_some hfind
    exact ⟨List.mem_of_find?_eq_some hfind, hid ▸ hbase⟩
  · rintro ⟨ht, hbase⟩
    exact ⟨t.id, hbase, Registry.find?_name_eq hfound ht⟩

end Links

/-- Among given schemas, to extend one is to name it. -/
theorem extends_iff (hall : all.Filed Schema.id) (ht : t ∈ all.elements) : Extends all s t ↔ t.id ∈ s.bases := by
  constructor
  · rintro ⟨base, hbase, hget⟩
    exact (hall.get?_eq_some_iff.mp hget).2 ▸ hbase
  · exact fun hbase => ⟨t.id, hbase, hall.get?_of_mem ht⟩

/-- If every schema extends lower ones only, none extends itself. -/
theorem not_transGen_extends_self (hall : all.Filed Schema.id) (rank : Schema → Nat)
    (hrank : ∀ s ∈ all.elements, ∀ t ∈ all.elements, t.id ∈ s.bases → rank t < rank s) (hs : s ∈ all.elements) :
    ¬ TransGen (Extends all) s s := by
  have hlower : ∀ t, TransGen (Extends all) s t → t ∈ all.elements ∧ rank t < rank s := by
    intro t ht
    induction ht with
    | single hext =>
      have hmem := hext.mem_elements
      exact ⟨hmem, hrank _ hs _ hmem ((extends_iff hall hmem).mp hext)⟩
    | tail _ hext ih =>
      have hmem := hext.mem_elements
      exact ⟨hmem, (hrank _ ih.1 _ hmem ((extends_iff hall hmem).mp hext)).trans ih.2⟩
  exact fun hself => Nat.lt_irrefl _ (hlower s hself).2

section Cycles

variable (hall : all.Filed Schema.id) (hroots : ∀ r ∈ roots.elements, r ∈ all.elements)
  (hlists : Lists all roots found)

include hall hroots hlists

theorem link_iff (hs : s ∈ found) : Order.Link (extending found) s t ↔ t ∈ found ∧ Extends all t s := by
  rw [Order.Link, mem_extending hlists.nodup,
    extends_iff hall (((hlists.mem_iff s).mp hs).mem_elements hroots)]

/-- A schema is on a cycle of the search exactly if it extends itself, directly or through others. -/
theorem onCycle_extending_iff (hs : s ∈ found) :
    Order.OnCycle (extending found) s ↔ TransGen (Extends all) s s := by
  have hforth : ∀ t, TransGen (Order.Link (extending found)) s t → t ∈ found ∧ TransGen (Extends all) t s := by
    intro t ht
    induction ht with
    | single hlink =>
      obtain ⟨hmem, hext⟩ := (link_iff hall hroots hlists hs).mp hlink
      exact ⟨hmem, .single hext⟩
    | tail _ hlink ih =>
      obtain ⟨hmem, hext⟩ := (link_iff hall hroots hlists ih.1).mp hlink
      exact ⟨hmem, .head hext ih.2⟩
  have hback : ∀ t, TransGen (Extends all) s t → t ∈ found ∧ TransGen (Order.Link (extending found)) t s := by
    intro t ht
    induction ht with
    | single hext =>
      have hmem := (hlists.mem_iff _).mpr (((hlists.mem_iff s).mp hs).extends hext)
      exact ⟨hmem, .single ((link_iff hall hroots hlists hmem).mpr ⟨hs, hext⟩)⟩
    | tail _ hext ih =>
      have hmem := (hlists.mem_iff _).mpr (((hlists.mem_iff _).mp ih.1).extends hext)
      exact ⟨hmem, .head ((link_iff hall hroots hlists hmem).mpr ⟨ih.1, hext⟩) ih.2⟩
  exact ⟨fun h => (hforth s h).2, fun h => (hback s h).2⟩

/-- If the search has found the reachable schemas, they are put into an order or one on a cycle is refused. -/
theorem predecessorsFirst_extending :
    match Order.predecessorsFirst (extending found) (extended found) found with
    | .ok schemas => IsJoinOrder all roots schemas ∧ ∀ s, Reachable all roots s → ¬ TransGen (Extends all) s s
    | .error s => Reachable all roots s ∧ TransGen (Extends all) s s := by
  have hclosed : ∀ s ∈ found, ∀ t ∈ extending found s, t ∈ found :=
    fun s _ t ht => ((mem_extending hlists.nodup).mp ht).1
  have hlinks : ∀ s ∈ found, ∀ t, t ∈ extended found s ↔ t ∈ found ∧ s ∈ extending found t := by
    intro s hs t
    rw [mem_extended hlists.nodup, mem_extending hlists.nodup]
    tauto
  cases hresult : Order.predecessorsFirst (extending found) (extended found) found with
  | error s =>
    obtain ⟨hs, hcycle⟩ := Order.onCycle_of_predecessorsFirst_eq_error hclosed hlinks hresult
    exact ⟨(hlists.mem_iff s).mp hs, (onCycle_extending_iff hall hroots hlists hs).mp hcycle⟩
  | ok schemas =>
    obtain ⟨hnodup, hmem, hfirst⟩ := Order.predecessorsFirst_of_eq_ok hclosed hlinks hresult
    have hacyclic := (Order.exists_predecessorsFirst_eq_ok_iff hclosed hlinks).mp ⟨schemas, hresult⟩
    refine ⟨⟨hnodup, fun s => (hmem s).trans (hlists.mem_iff s), ?_⟩, fun s hs hcycle => ?_⟩
    · intro earlier s later hsplit t hext
      have hs : s ∈ found := (hmem s).mp (by simp [hsplit])
      have ht : t ∈ found := (hlists.mem_iff t).mpr (((hlists.mem_iff s).mp hs).extends hext)
      refine hfirst earlier s later hsplit t ((mem_extended hlists.nodup).mpr ⟨ht, ?_⟩)
      exact (extends_iff hall hext.mem_elements).mp hext
    · have hs := (hlists.mem_iff s).mpr hs
      exact hacyclic s hs ((onCycle_extending_iff hall hroots hlists hs).mpr hcycle)

end Cycles

/-! ### The order and the run -/

section Resolve

variable (hall : all.Filed Schema.id) (hroots : ∀ r ∈ roots.elements, r ∈ all.elements)

include hall hroots

/-- The order of the schemas, or what stands against one. -/
theorem order_cases :
    (∃ schemas, order all roots = .ok schemas ∧ IsJoinOrder all roots schemas ∧
        (∀ s, Reachable all roots s → ∀ base, ¬ Lacks all s base) ∧
        ∀ s, Reachable all roots s → ¬ TransGen (Extends all) s s) ∨
      (∃ s, order all roots = .error (.cyclicInheritance s.id) ∧
        (∀ s, Reachable all roots s → ∀ base, ¬ Lacks all s base) ∧
        Reachable all roots s ∧ TransGen (Extends all) s s) ∨
      ∃ s base, order all roots = .error (.unknownBase s.id base) ∧ Reachable all roots s ∧ Lacks all s base := by
  have hright := right_discover hall hroots
  rw [order]
  cases hdiscover : discover all roots with
  | error e =>
    rw [hdiscover] at hright
    obtain ⟨s, base, rfl, hs, hlacks⟩ := hright
    exact .inr (.inr ⟨s, base, rfl, hs, hlacks⟩)
  | ok found =>
    rw [hdiscover] at hright
    have hlists : Lists all roots found := hright
    have hfirst := predecessorsFirst_extending hall hroots hlists
    simp only [bind, Except.bind]
    cases hresult : Order.predecessorsFirst (extending found) (extended found) found with
    | error s =>
      rw [hresult] at hfirst
      exact .inr (.inl ⟨s, rfl, hlists.complete, hfirst⟩)
    | ok schemas =>
      rw [hresult] at hfirst
      exact .inl ⟨schemas, rfl, hfirst.1, hlists.complete, hfirst.2⟩

theorem isJoinOrder_of_order_eq_ok {schemas : List Schema} (horder : order all roots = .ok schemas) :
    IsJoinOrder all roots schemas := by
  obtain ⟨schemas', horder', hjoin, -⟩ | ⟨s, horder', -⟩ | ⟨s, base, horder', -⟩ := order_cases hall hroots
  · exact Except.ok.inj (horder'.symm.trans horder) ▸ hjoin
  · exact nomatch horder'.symm.trans horder
  · exact nomatch horder'.symm.trans horder

/-- There is an order if no base is missing and no schema extends itself. -/
theorem exists_order_eq_ok
    (hgraph : ∀ s, Reachable all roots s → (∀ base, ¬ Lacks all s base) ∧ ¬ TransGen (Extends all) s s) :
    ∃ schemas, order all roots = .ok schemas := by
  obtain ⟨schemas, horder, -⟩ | ⟨s, -, -, hs, hcycle⟩ | ⟨s, base, -, hs, hlacks⟩ := order_cases hall hroots
  · exact ⟨schemas, horder⟩
  · exact absurd hcycle (hgraph s hs).2
  · exact absurd hlacks ((hgraph s hs).1 base)

/-- **Graph errors and the join order.** The search of the extended schemas comes to an end, whatever they extend.
A run reports a missing base exactly if a reachable schema has one, and then such a schema and base. If none is
missing, it reports a cycle exactly if a reachable schema extends itself, directly or through others, and then such
a schema. If there is neither, it joins the reachable schemas in an order with bases first, and returns that order
unless one of the joins fails. -/
theorem resolve_graph_errors_and_order (w : Workspace) :
    Discovers all [] roots.elements (discover all roots) ∧
    ((∃ id base, ((resolve all roots).run.run w).1 = .error (.unknownBase id base)) ↔
      ∃ s base, Reachable all roots s ∧ Lacks all s base) ∧
    (∀ id base, ((resolve all roots).run.run w).1 = .error (.unknownBase id base) →
      ∃ s, s.id = id ∧ Reachable all roots s ∧ Lacks all s base) ∧
    ((∀ s, Reachable all roots s → ∀ base, ¬ Lacks all s base) →
      ((∃ id, ((resolve all roots).run.run w).1 = .error (.cyclicInheritance id)) ↔
        ∃ s, Reachable all roots s ∧ TransGen (Extends all) s s) ∧
      (∀ id, ((resolve all roots).run.run w).1 = .error (.cyclicInheritance id) →
        ∃ s, s.id = id ∧ Reachable all roots s ∧ TransGen (Extends all) s s) ∧
      ((∀ s, Reachable all roots s → ¬ TransGen (Extends all) s s) →
        ∃ schemas, IsJoinOrder all roots schemas ∧
          ((resolve all roots).run.run w).1 =
            ((schemas.forM (joinBases all)).run.run w).1.map fun _ => schemas)) := by
  refine ⟨discovers_discover all roots, ?_⟩
  rw [result_resolve]
  obtain ⟨schemas, horder, hjoin, hcomplete, hacyclic⟩ | ⟨s, horder, hcomplete, hs, hcycle⟩ |
    ⟨s, base, horder, hs, hlacks⟩ := order_cases hall hroots
  · -- Only joins can fail, and they report neither a base nor a cycle.
    have hjoins : ∀ e, ((schemas.foldlM (joinStep all) w.graph).map fun _ => schemas) = .error e → JoinError e := by
      intro e he
      exact joinError_of_foldlM_eq_error (map_eq_error_iff.mp he)
    simp only [horder, Except.bind]
    refine ⟨⟨?_, ?_⟩, ?_, fun _ => ⟨⟨?_, ?_⟩, ?_, fun _ => ⟨schemas, hjoin, ?_⟩⟩⟩
    · rintro ⟨id, base, he⟩
      cases hjoins _ he
    · rintro ⟨s, base, hs, hlacks⟩
      exact absurd hlacks (hcomplete s hs base)
    · intro id base he
      cases hjoins _ he
    · rintro ⟨id, he⟩
      cases hjoins _ he
    · rintro ⟨s, hs, hcycle⟩
      exact absurd hcycle (hacyclic s hs)
    · intro id he
      cases hjoins _ he
    · cases hfold : schemas.foldlM (joinStep all) w.graph with
      | ok graph =>
        obtain ⟨journal, hrun⟩ := run_joins_of_ok hfold
        rw [hrun]
        rfl
      | error e =>
        obtain ⟨w', hrun⟩ := run_joins_of_error hfold
        rw [hrun]
        rfl
  · simp only [horder, Except.bind]
    refine ⟨⟨?_, ?_⟩, ?_, fun _ => ⟨⟨fun _ => ⟨s, hs, hcycle⟩, fun _ => ⟨s.id, rfl⟩⟩, ?_, ?_⟩⟩
    · rintro ⟨id, base, he⟩
      cases he
    · rintro ⟨t, base, ht, hlacks⟩
      exact absurd hlacks (hcomplete t ht base)
    · intro id base he
      cases he
    · intro id he
      cases he
      exact ⟨s, rfl, hs, hcycle⟩
    · exact fun hacyclic => absurd hcycle (hacyclic s hs)
  · simp only [horder, Except.bind]
    refine ⟨⟨fun _ => ⟨s, base, hs, hlacks⟩, fun _ => ⟨s.id, base, rfl⟩⟩, ?_, ?_⟩
    · intro id base' he
      cases he
      exact ⟨s, rfl, hs, hlacks⟩
    · exact fun hcomplete => absurd hlacks (hcomplete s hs base)

end Resolve

/-! ### A missing base, a circle and a line -/

section Families

/-- An invoice extends a document that is not given. -/
def lone : Registry Schema :=
  Registry.ofList Schema.id [⟨"invoice", none, ["document"], ⟨0⟩⟩]

/-- A document and an invoice extend each other. -/
def circle : Registry Schema :=
  Registry.ofList Schema.id [⟨"document", none, ["invoice"], ⟨0⟩⟩, ⟨"invoice", none, ["document"], ⟨1⟩⟩]

/-- An invoice extends a document, and both extend paper. -/
def line : Registry Schema :=
  Registry.ofList Schema.id
    [⟨"document", none, ["paper"], ⟨0⟩⟩, ⟨"invoice", none, ["document", "paper"], ⟨1⟩⟩, ⟨"paper", none, [], ⟨2⟩⟩]

/-- Empty root objects for a document, an invoice and paper. -/
def desk : Workspace where
  graph :=
    { items := #[.object { typeName := "document" }, .object { typeName := "invoice" }, .object { typeName := "paper" }]
      properties := #[⟨{ name := "document" }, ⟨0⟩⟩, ⟨{ name := "invoice" }, ⟨1⟩⟩, ⟨{ name := "paper" }, ⟨2⟩⟩] }

/-- A base that is not given is reported, and so is a circle. Schemas in a line are joined with bases first. -/
theorem resolve_lone_circle_and_line :
    (lone.Filed Schema.id ∧ circle.Filed Schema.id ∧ line.Filed Schema.id) ∧
    (∃ id base, ((resolve lone lone).run.run {}).1 = .error (.unknownBase id base)) ∧
    (∃ id, ((resolve circle circle).run.run {}).1 = .error (.cyclicInheritance id)) ∧
    ∃ schemas, IsJoinOrder line line schemas ∧ schemas.map Schema.id = ["paper", "document", "invoice"] ∧
      ((resolve line line).run.run desk).1 = .ok schemas := by
  have hlone : lone.Filed Schema.id := Registry.filed_ofList _ _
  have hcircle : circle.Filed Schema.id := Registry.filed_ofList _ _
  have hline : line.Filed Schema.id := Registry.filed_ofList _ _
  have hgiven : ∀ {all : Registry Schema}, (∀ s ∈ all.elements, ∀ base ∈ s.bases, all.get? base ≠ none) →
      ∀ s, Reachable all all s → ∀ base, ¬ Lacks all s base :=
    fun h s hs base hlacks => h s (hs.mem_elements fun _ hr => hr) base hlacks.1 hlacks.2
  refine ⟨⟨hlone, hcircle, hline⟩, ?_, ?_, ?_⟩
  · refine (resolve_graph_errors_and_order hlone (fun _ hr => hr) {}).2.1.mpr ?_
    exact ⟨⟨"invoice", none, ["document"], ⟨0⟩⟩, "document", reachable_of_mem (by decide), by decide, by decide⟩
  · have hforth : Extends circle ⟨"document", none, ["invoice"], ⟨0⟩⟩ ⟨"invoice", none, ["document"], ⟨1⟩⟩ :=
      ⟨"invoice", by decide, by decide⟩
    have hback : Extends circle ⟨"invoice", none, ["document"], ⟨1⟩⟩ ⟨"document", none, ["invoice"], ⟨0⟩⟩ :=
      ⟨"document", by decide, by decide⟩
    refine ((resolve_graph_errors_and_order hcircle (fun _ hr => hr) {}).2.2.2 (hgiven (by decide))).1.mpr ?_
    exact ⟨_, reachable_of_mem (by decide), .tail (.single hforth) hback⟩
  · have hacyclic : ∀ s, Reachable line line s → ¬ TransGen (Extends line) s s := fun s hs =>
      not_transGen_extends_self hline (fun s => s.bases.length) (by decide) (hs.mem_elements fun _ hr => hr)
    obtain ⟨schemas, horder, hrun⟩ := ((resolve_graph_errors_and_order hline (fun _ hr => hr) desk).2.2.2
      (hgiven (by decide))).2.2 hacyclic
    have hids : ((resolve line line).run.run desk).1.toOption.map (List.map Schema.id) =
        some ["paper", "document", "invoice"] := by decide +kernel
    rw [hrun] at hids ⊢
    cases hjoins : ((schemas.forM (joinBases line)).run.run desk).1 with
    | error e =>
      rw [hjoins] at hids
      exact nomatch hids
    | ok done =>
      rw [hjoins] at hids
      exact ⟨schemas, horder, Option.some.inj hids, rfl⟩

end Families

end Schemata.Lineage
