import Schemata.Proofs.Conversion

/-!
# Reading schemas one after the other

`Schema.parseEach` reads a list of schemas into a graph, without a look at their identifiers. The runs of
`Conversion.parseAll` and `Conversion.prepare` are that, with checks in between: the schemas are read, their identifiers
are told apart, an order is found and the joins are made in that order (`Conversion.Prepares`). A run comes through
exactly if each of these does (`prepare_eq_ok_iff`).
-/

namespace Schemata

open Schema (Assembled)
open Lineage (joinStep)

variable {g h : Graph} {s : Schema} {entries : Entries} {given read : List Schema}

namespace Schema

/-- Parse schemas into a graph, one after the other. -/
def parseEach : Graph → List Entries → Except SchemaError (Graph × List Schema)
  | g, [] => .ok (g, [])
  | g, entries :: data => do
    let (g, s) ← parse g entries
    let (g, rest) ← parseEach g data
    return (g, s :: rest)

theorem parseEach_cons_eq_ok_iff {data : List Entries} :
    parseEach g (entries :: data) = .ok (h, read) ↔ ∃ next s rest, parse g entries = .ok (next, s) ∧
      parseEach next data = .ok (h, rest) ∧ read = s :: rest := by
  rw [parseEach, bind_eq_ok_iff]
  constructor
  · rintro ⟨⟨next, s⟩, hs, hboth⟩
    obtain ⟨⟨h', rest⟩, hrest, heq⟩ := bind_eq_ok_iff.mp hboth
    obtain ⟨rfl, rfl⟩ := Prod.mk.inj (Except.ok.inj heq)
    exact ⟨next, s, rest, hs, hrest, rfl⟩
  · rintro ⟨next, s, rest, hs, hrest, rfl⟩
    exact ⟨(next, s), hs, bind_eq_ok_iff.mpr ⟨(h, rest), hrest, rfl⟩⟩

theorem parseEach_append {data rest : List Entries} {middle : Graph} {second : List Schema} :
    ∀ {g : Graph} {first : List Schema}, parseEach g data = .ok (middle, first) →
      parseEach middle rest = .ok (h, second) → parseEach g (data ++ rest) = .ok (h, first ++ second) := by
  induction data with
  | nil =>
    intro g first hfirst hsecond
    obtain ⟨rfl, rfl⟩ := Prod.mk.inj (Except.ok.inj hfirst)
    exact hsecond
  | cons entries data ih =>
    intro g first hfirst hsecond
    obtain ⟨next, s, later, hs, hlater, rfl⟩ := parseEach_cons_eq_ok_iff.mp hfirst
    exact parseEach_cons_eq_ok_iff.mpr ⟨next, s, _, hs, ih hlater hsecond, rfl⟩

/-- What one more schema keeps up, all of them keep up. -/
theorem parseEach_induction {P : Graph → List Schema → Prop}
    (hstep : ∀ {g h : Graph} {given : List Schema} {entries : Entries} {s : Schema}, P g given →
      parse g entries = .ok (h, s) → P h (s :: given)) (data : List Entries) :
    ∀ {g : Graph} {given read : List Schema}, P g given → parseEach g data = .ok (h, read) →
      P h (read.reverse ++ given) := by
  induction data with
  | nil =>
    intro g given read hg hread
    obtain ⟨rfl, rfl⟩ := Prod.mk.inj (Except.ok.inj hread)
    exact hg
  | cons entries data ih =>
    intro g given read hg hread
    obtain ⟨next, s, rest, hs, hrest, rfl⟩ := parseEach_cons_eq_ok_iff.mp hread
    rw [List.reverse_cons, List.append_assoc, List.singleton_append]
    exact ih (hstep hg hs) hrest

theorem Assembled.parseEach {data : List Entries} (hg : Assembled g given)
    (hread : Schema.parseEach g data = .ok (h, read)) : Assembled h (read.reverse ++ given) :=
  parseEach_induction Assembled.parse data hg hread

/-- A schema that is read is another one than those that were read before. -/
theorem Assembled.notMem_of_parse (hg : Assembled g given) (hparse : Schema.parse g entries = .ok (h, s)) : s ∉ given := by
  intro hs
  obtain ⟨hgrown, -, hnew⟩ := hasRoot_of_parse hparse
  have hroot := hg.parses.rooted.hasRoot s hs
  have hpresent : g.Present (.item (s.rootItem h)) := by
    rw [hroot.rootItem_eq hgrown.kept]
    exact hroot.root.item_lt
  exact hpresent.not_new hnew

theorem Assembled.nodup_parseEach {data : List Entries} (hg : Assembled g given) (hgiven : given.Nodup)
    (hread : Schema.parseEach g data = .ok (h, read)) : (read.reverse ++ given).Nodup := by
  have hboth := parseEach_induction (P := fun h given => Assembled h given ∧ given.Nodup)
    (fun hg hparse => ⟨hg.1.parse hparse, List.nodup_cons.mpr ⟨hg.1.notMem_of_parse hparse, hg.2⟩⟩) data ⟨hg, hgiven⟩ hread
  exact hboth.2

end Schema

namespace Registry

variable {α : Type} [DecidableEq α] {nameOf : α → String} {xs ys : List α} {x : α}

omit [DecidableEq α] in
theorem get?_ofList_eq_some_iff (hxs : (xs.map nameOf).Nodup) {name : String} :
    (ofList nameOf xs).get? name = some x ↔ x ∈ xs ∧ nameOf x = name := by
  rw [(filed_ofList nameOf xs).get?_eq_some_iff, mem_elements_ofList hxs]

/-- One more element is filed among others exactly if none of them has its name. -/
theorem register_ofList_eq_ok_iff {filed : Registry α} (hxs : (xs.map nameOf).Nodup) (hx : x ∉ xs) :
    (ofList nameOf xs).register nameOf x = .ok filed ↔
      ((xs ++ [x]).map nameOf).Nodup ∧ filed = ofList nameOf (xs ++ [x]) := by
  have hinsert : ofList nameOf (xs ++ [x]) = (ofList nameOf xs).insert nameOf x := by
    rw [ofList, List.foldl_append]
    rfl
  have hfree : (∀ y, (ofList nameOf xs).get? (nameOf x) = some y → y = x) ↔ nameOf x ∉ xs.map nameOf := by
    simp only [get?_ofList_eq_some_iff hxs, List.mem_map, not_exists]
    exact forall_congr' fun y => ⟨fun heq hy => hx (heq hy ▸ hy.1), fun hy hmem => absurd hmem hy⟩
  rw [register_eq_ok_iff, hfree, hinsert, List.map_append, List.map_singleton, List.nodup_append_comm,
    List.singleton_append, List.nodup_cons]
  simp only [hxs, and_true]

/-- Two lists of elements are filed together exactly if their names tell them apart. -/
theorem registerAll_ofList_eq_ok_iff {filed : Registry α} (hxs : (xs.map nameOf).Nodup) (hys : (ys.map nameOf).Nodup)
    (hdisjoint : ∀ x ∈ xs, x ∉ ys) :
    (ofList nameOf xs).registerAll nameOf (ofList nameOf ys) = .ok filed ↔
      ((xs ++ ys).map nameOf).Nodup ∧ filed = ofList nameOf (xs ++ ys) := by
  have hfree : (∀ y ∈ (ofList nameOf ys).elements, ∀ x, (ofList nameOf xs).get? (nameOf y) = some x → x = y) ↔
      ((xs ++ ys).map nameOf).Nodup := by
    rw [List.map_append, List.nodup_append']
    simp only [hxs, hys, true_and, List.disjoint_left, mem_elements_ofList hys, get?_ofList_eq_some_iff hxs, List.mem_map]
    constructor
    · rintro hsame name ⟨x, hx, rfl⟩ ⟨y, hy, hname⟩
      exact hdisjoint x hx (hsame y hy x ⟨hx, hname.symm⟩ ▸ hy)
    · rintro hnone y hy x ⟨hx, hname⟩
      exact absurd ⟨y, hy, hname.symm⟩ (hnone ⟨x, hx, rfl⟩)
  have hunion : ((xs ++ ys).map nameOf).Nodup →
      (ofList nameOf xs).insertAll nameOf (ofList nameOf ys) = ofList nameOf (xs ++ ys) := by
    intro hnodup
    refine ((filed_ofList nameOf xs).insertAll _).eq_of_mem_iff (filed_ofList _ _) fun x => ?_
    rw [mem_elements_of_registerAll_eq_ok (filed_ofList _ _) (filed_ofList _ _)
      (registerAll_eq_ok_iff.mpr ⟨hfree.mpr hnodup, rfl⟩), mem_elements_ofList hxs, mem_elements_ofList hys,
      mem_elements_ofList hnodup, List.mem_append]
  rw [registerAll_eq_ok_iff, hfree]
  exact and_congr_right fun hnodup => by rw [hunion hnodup]

end Registry

namespace Conversion

variable {w w' : Workspace} {data supplementary generated : List Entries} {schemas : Registry Schema}

/-! ### Lists of schemas -/

theorem run_parseSchema_eq_ok_iff :
    (parseSchema entries).run.run w = (.ok s, w') ↔ ∃ graph, Schema.parse w.graph entries = .ok (graph, s) ∧
      w' = ⟨graph, w.journal ++ [.parsedSchema s.id s.parent s.bases]⟩ := by
  rcases hparse : Schema.parse w.graph entries with e | ⟨graph, t⟩
  · rw [parseSchema, Build.run_bind, Build.run_onGraph, hparse]
    constructor
    · rintro ⟨⟩
    · rintro ⟨graph, ⟨⟩, -⟩
  · rw [run_parseSchema_of_ok hparse, Prod.mk.injEq]
    constructor
    · rintro ⟨hok, rfl⟩
      obtain rfl := Except.ok.inj hok
      exact ⟨graph, rfl, rfl⟩
    · rintro ⟨graph', heq, rfl⟩
      obtain ⟨rfl, rfl⟩ := Prod.mk.inj (Except.ok.inj heq)
      exact ⟨rfl, rfl⟩

/-- Schemas are read by a run exactly if each of them can be read and their identifiers tell them apart. -/
theorem run_parseAll_eq_ok_iff (hw : Assembled w.graph given) :
    (∃ w', (parseAll data).run.run w = (.ok schemas, w') ∧ w'.graph = h) ↔
      ∃ read, Schema.parseEach w.graph data = .ok (h, read) ∧ (read.map Schema.id).Nodup ∧
        schemas = Registry.ofList Schema.id read := by
  suffices hfold : ∀ (data : List Entries) (w : Workspace) (given done : List Schema), Assembled w.graph given →
      (∀ s ∈ done, s ∈ given) → (done.map Schema.id).Nodup →
      ((∃ w', (data.foldlM (fun schemas entries => do
          let s ← parseSchema entries
          MonadExcept.ofExcept ((schemas.register Schema.id s).mapError SchemaError.ofDuplicateSchema))
            (Registry.ofList Schema.id done) : Build (Registry Schema)).run.run w = (.ok schemas, w') ∧ w'.graph = h) ↔
        ∃ read, Schema.parseEach w.graph data = .ok (h, read) ∧ ((done ++ read).map Schema.id).Nodup ∧
          schemas = Registry.ofList Schema.id (done ++ read)) from
    hfold data w given [] hw (by simp) (by simp)
  intro data
  induction data with
  | nil =>
    intro w given done _ _ hdone
    constructor
    · rintro ⟨w', hrun, rfl⟩
      obtain ⟨hok, rfl⟩ := Prod.mk.inj hrun
      obtain rfl := Except.ok.inj hok
      exact ⟨[], rfl, by rwa [List.append_nil], by rw [List.append_nil]⟩
    · rintro ⟨read, hread, -, rfl⟩
      obtain ⟨rfl, rfl⟩ := Prod.mk.inj (Except.ok.inj hread)
      exact ⟨w, by rw [List.append_nil]; rfl, rfl⟩
  | cons entries data ih =>
    intro w given done hw hgiven hdone
    have hregister : ∀ {graph s filed}, Schema.parse w.graph entries = .ok (graph, s) →
        (((Registry.ofList Schema.id done).register Schema.id s).mapError SchemaError.ofDuplicateSchema = .ok filed ↔
          ((done ++ [s]).map Schema.id).Nodup ∧ filed = Registry.ofList Schema.id (done ++ [s])) := by
      intro graph s filed hparse
      rw [mapError_eq_ok_iff]
      exact Registry.register_ofList_eq_ok_iff hdone fun hs => hw.notMem_of_parse hparse (hgiven s hs)
    have hrest : ∀ {graph s} (journal : List Event), Schema.parse w.graph entries = .ok (graph, s) →
        ((done ++ [s]).map Schema.id).Nodup → _ := fun {graph s} journal hparse hnodup =>
      ih ⟨graph, journal⟩ (s :: given) (done ++ [s]) (hw.parse hparse) (by
        intro t ht
        rcases List.mem_append.mp ht with ht | ht
        · exact List.mem_cons_of_mem s (hgiven t ht)
        · exact List.mem_cons.mpr (.inl (List.mem_singleton.mp ht))) hnodup
    constructor
    · rintro ⟨w', hrun, rfl⟩
      rw [List.foldlM_cons, Build.run_bind_eq_ok_iff] at hrun
      obtain ⟨next, v, hstep, hrun⟩ := hrun
      rw [Build.run_bind_eq_ok_iff] at hstep
      obtain ⟨s, u, hs, hfiled⟩ := hstep
      obtain ⟨graph, hparse, rfl⟩ := run_parseSchema_eq_ok_iff.mp hs
      rw [Build.run_ofExcept] at hfiled
      obtain ⟨hnext, rfl⟩ := Prod.mk.inj hfiled
      obtain ⟨hnodup, rfl⟩ := (hregister hparse).mp hnext
      obtain ⟨read, hread, hall, hschemas⟩ := (hrest _ hparse hnodup).mp ⟨w', hrun, rfl⟩
      rw [List.append_assoc, List.singleton_append] at hall hschemas
      exact ⟨s :: read, Schema.parseEach_cons_eq_ok_iff.mpr ⟨graph, s, read, hparse, hread, rfl⟩, hall, hschemas⟩
    · rintro ⟨read, hboth, hall, hschemas⟩
      obtain ⟨graph, s, rest, hparse, hread, rfl⟩ := Schema.parseEach_cons_eq_ok_iff.mp hboth
      rw [← List.singleton_append, ← List.append_assoc] at hall hschemas
      have hnodup : ((done ++ [s]).map Schema.id).Nodup := by
        rw [List.map_append] at hall
        exact hall.of_append_left
      obtain ⟨w', hrun, rfl⟩ := (hrest (w.journal ++ [.parsedSchema s.id s.parent s.bases]) hparse hnodup).mpr
        ⟨rest, hread, hall, hschemas⟩
      refine ⟨w', ?_, rfl⟩
      rw [List.foldlM_cons, Build.run_bind_eq_ok_iff]
      refine ⟨_, _, Build.run_bind_eq_ok_iff.mpr ⟨s, _, run_parseSchema_eq_ok_iff.mpr ⟨graph, hparse, rfl⟩, ?_⟩, hrun⟩
      rw [Build.run_ofExcept, (hregister hparse).mpr ⟨hnodup, rfl⟩]

/-! ### Preparations -/

/-- The schemas of a preparation, by identifier. -/
abbrev schemasOf (schemas : List Schema) : Registry Schema :=
  Registry.ofList Schema.id schemas

/-- What a preparation reads: the supplementary schemas and the schemas to generate, with different identifiers. -/
structure Reads (supplementary generated : List Entries) (first second : List Schema) (g : Graph) : Prop where
  read : ∃ middle, Schema.parseEach {} supplementary = .ok (middle, first) ∧
    Schema.parseEach middle generated = .ok (g, second)
  apart : ((first ++ second).map Schema.id).Nodup

namespace Reads

variable {first second : List Schema} (hreads : Reads supplementary generated first second g)

include hreads

theorem parseEach : Schema.parseEach {} (supplementary ++ generated) = .ok (g, first ++ second) := by
  obtain ⟨middle, hfirst, hsecond⟩ := hreads.read
  exact Schema.parseEach_append hfirst hsecond

theorem assembled : Assembled g (first ++ second).reverse := by
  simpa using Schema.assembled_empty.parseEach hreads.parseEach

theorem mem_all_iff : s ∈ (schemasOf (first ++ second)).elements ↔ s ∈ first ++ second :=
  Registry.mem_elements_ofList hreads.apart

theorem mem_generated_iff : s ∈ (schemasOf second).elements ↔ s ∈ second := by
  have happart := hreads.apart
  rw [List.map_append] at happart
  exact Registry.mem_elements_ofList happart.of_append_right

theorem mem_all_of_generated (hs : s ∈ (schemasOf second).elements) : s ∈ (schemasOf (first ++ second)).elements := by
  rw [hreads.mem_all_iff, List.mem_append]
  exact .inr (hreads.mem_generated_iff.mp hs)

theorem mem_assembled (hs : s ∈ (schemasOf (first ++ second)).elements) : s ∈ (first ++ second).reverse :=
  List.mem_reverse.mpr (hreads.mem_all_iff.mp hs)

end Reads

/-- The steps of a preparation: schemas are read into `g`, and are joined in an order that leads to `h`. -/
structure Prepares (supplementary generated : List Entries) (first second : List Schema) (g : Graph)
    (order : List Schema) (h : Graph) : Prop extends Reads supplementary generated first second g where
  order_eq : Lineage.order (schemasOf (first ++ second)) (schemasOf second) = .ok order
  joins : order.foldlM (joinStep (schemasOf (first ++ second))) g = .ok h

namespace Prepares

variable {first second order : List Schema} (hprepares : Prepares supplementary generated first second g order h)

include hprepares

theorem isJoinOrder : Lineage.IsJoinOrder (schemasOf (first ++ second)) (schemasOf second) order :=
  Lineage.isJoinOrder_of_order_eq_ok (Registry.filed_ofList _ _) (fun _ hs => hprepares.mem_all_of_generated hs)
    hprepares.order_eq

theorem mem_all_of_order (hs : s ∈ order) : s ∈ (schemasOf (first ++ second)).elements :=
  ((hprepares.isJoinOrder.mem_iff s).mp hs).mem_elements fun _ hr => hprepares.mem_all_of_generated hr

end Prepares

theorem together_eq_ok_iff {first second : List Schema} {all : Registry Schema} (hfirst : (first.map Schema.id).Nodup)
    (hsecond : (second.map Schema.id).Nodup) (hdisjoint : ∀ s ∈ first, s ∉ second) :
    together (schemasOf first) (schemasOf second) = .ok all ↔
      ((first ++ second).map Schema.id).Nodup ∧ all = schemasOf (first ++ second) := by
  have hempty : (∅ : Registry Schema).registerAll Schema.id (schemasOf first) = .ok (schemasOf first) := by
    have hnil : (schemasOf []).registerAll Schema.id (schemasOf first) = .ok (schemasOf first) ↔ _ :=
      Registry.registerAll_ofList_eq_ok_iff List.nodup_nil hfirst (by simp)
    exact hnil.mpr ⟨hfirst, rfl⟩
  rw [← Registry.registerAll_ofList_eq_ok_iff hfirst hsecond hdisjoint, together]
  simp only [List.foldlM_cons, List.foldlM_nil, hempty, Except.mapError, bind, Except.bind]
  cases (schemasOf first).registerAll Schema.id (schemasOf second) with
  | error e => constructor <;> rintro ⟨⟩
  | ok both => simp only [pure, Except.pure, Except.ok.injEq]

/-- **A preparation comes through exactly if each of its steps does.** -/
theorem prepare_eq_ok_iff :
    (∃ w, (prepare supplementary generated).run.run {} = (.ok schemas, w) ∧ w.graph = h) ↔
      ∃ first second g order, Prepares supplementary generated first second g order h ∧ schemas = schemasOf second := by
  have hempty : Assembled ({} : Workspace).graph [] := Schema.assembled_empty
  have hdisjoint : ∀ {middle g first second}, Schema.parseEach {} supplementary = .ok (middle, first) →
      Schema.parseEach middle generated = .ok (g, second) → ∀ s ∈ first, s ∉ second := by
    intro middle g first second hfirst hsecond
    have hnodup := (hempty.parseEach hfirst).nodup_parseEach (hempty.nodup_parseEach List.nodup_nil hfirst) hsecond
    intro s hs hs'
    exact List.disjoint_of_nodup_append hnodup (by simpa using hs') (by simpa using hs)
  constructor
  · rintro ⟨w, hrun, rfl⟩
    rw [prepare, Build.run_bind_eq_ok_iff] at hrun
    obtain ⟨given, w₁, hfirst, hrun⟩ := hrun
    rw [Build.run_bind_eq_ok_iff] at hrun
    obtain ⟨found, w₂, hsecond, hrun⟩ := hrun
    rw [Build.run_bind_eq_ok_iff] at hrun
    obtain ⟨all, w₃, hboth, hrun⟩ := hrun
    rw [Build.run_ofExcept] at hboth
    obtain ⟨htogether, rfl⟩ := Prod.mk.inj hboth
    rw [Build.run_bind_eq_ok_iff] at hrun
    obtain ⟨joined, w₄, hresolve, hrun⟩ := hrun
    obtain ⟨hok, rfl⟩ := Prod.mk.inj hrun
    obtain rfl := Except.ok.inj hok
    obtain ⟨first, hread, hnodup, rfl⟩ := (run_parseAll_eq_ok_iff hempty).mp ⟨w₁, hfirst, rfl⟩
    obtain ⟨second, hread', hnodup', rfl⟩ := (run_parseAll_eq_ok_iff (hempty.parseEach hread)).mp ⟨w₂, hsecond, rfl⟩
    obtain ⟨happart, rfl⟩ := (together_eq_ok_iff hnodup hnodup' (hdisjoint hread hread')).mp htogether
    obtain ⟨horder, hjoins⟩ := Lineage.joins_of_resolve_eq_ok hresolve
    exact ⟨first, second, _, joined, ⟨⟨⟨_, hread, hread'⟩, happart⟩, horder, hjoins⟩, rfl⟩
  · rintro ⟨first, second, g, order, ⟨⟨⟨middle, hread, hread'⟩, happart⟩, horder, hjoins⟩, rfl⟩
    have hnodup := happart
    rw [List.map_append, List.nodup_append'] at hnodup
    obtain ⟨w₁, hfirst, rfl⟩ := (run_parseAll_eq_ok_iff hempty).mpr ⟨first, hread, hnodup.1, rfl⟩
    obtain ⟨w₂, hsecond, rfl⟩ := (run_parseAll_eq_ok_iff (hempty.parseEach hread)).mpr ⟨second, hread', hnodup.2.1, rfl⟩
    have htogether := (together_eq_ok_iff hnodup.1 hnodup.2.1 (hdisjoint hread hread')).mpr ⟨happart, rfl⟩
    obtain ⟨journal, hresolve⟩ := Lineage.run_resolve_of_ok horder hjoins
    refine ⟨⟨h, journal⟩, ?_, rfl⟩
    simp only [prepare, Build.run_bind, hfirst, hsecond, Build.run_ofExcept, htogether, hresolve]
    rfl

end Conversion

end Schemata
