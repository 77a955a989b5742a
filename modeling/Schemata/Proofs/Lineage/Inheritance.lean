import Schemata.Proofs.Lineage.Inheriting
import Schemata.Proofs.Lineage.JoinOrder

/-!
# The meaning of inheritance

Schemas are joined with their bases one after the other, bases first. A join changes the root object of its schema and
no other, so a schema is joined while its own properties are still those that were read and its bases have got all that
they will ever have (`Lineage.Settled`). That makes each schema hold what it defines and what it inherits
(`Lineage.Inherits`), and the names of its properties are those that the schemas it can reach define.

`resolve_inherits_or_clashes` says this of a run of `Lineage.resolve`, and that nothing but a clash of two bases stops a
run once there is an order.
-/

namespace Schemata.Lineage

open Schemata.Graph (Kept Replaces)
open Relation (ReflTransGen TransGen)
open Schema (Rooted Parses)

variable {all roots : Registry Schema} {g b h : Graph} {s t : Schema} {schemas : List Schema} {w : Workspace}

/-! ### Joins leave other schemas alone -/

/-- A join keeps the root objects of the given schemas apart, and changes only the one of its schema. -/
theorem Joined.frame (hjoined : Joined all s g h) (hs : s ∈ all.elements) (hrooted : Rooted g all.elements) :
    Rooted h all.elements ∧ ∀ t ∈ all.elements, t ≠ s → t.rootObject h = t.rootObject g := by
  have hitem : ∀ t ∈ all.elements, t ≠ s → h.item (t.rootItem g) = g.item (t.rootItem g) := fun t ht hts =>
    hjoined.item_eq _ (hrooted.hasRoot t ht).root.item_lt fun heq => hts (hrooted.inj t ht s hs heq)
  refine ⟨⟨fun t ht => ?_, fun t ht u hu htu => ?_⟩, fun t ht hts => ?_⟩
  · by_cases hts : t = s
    · exact hts ▸ hjoined.hasRoot
    · exact (hrooted.hasRoot t ht).kept hjoined.kept (hitem t ht hts)
  · rw [(hrooted.hasRoot t ht).rootItem_eq hjoined.kept, (hrooted.hasRoot u hu).rootItem_eq hjoined.kept] at htu
    exact hrooted.inj t ht u hu htu
  · exact (hrooted.hasRoot t ht).rootObject_eq hjoined.kept (hitem t ht hts)

/-- A join of a given schema, if the given schemas have root objects of their own. -/
theorem joined_of_joinStep_eq_ok (hs : s ∈ all.elements) (hrooted : Rooted g all.elements)
    (hstep : joinStep all g s = .ok h) : Joined all s g h := by
  obtain ⟨h', heq, hjoined⟩ | ⟨name, herror, -⟩ :=
    joinStep_cases (hrooted.hasRoot s hs) fun t ht => hrooted.hasRoot t ht.mem_elements
  · exact Except.ok.inj (heq.symm.trans hstep) ▸ hjoined
  · exact nomatch herror.symm.trans hstep

/-- A join that fails reports a clash. -/
theorem clash_of_joinStep_eq_error {e : SchemaError} (hs : s ∈ all.elements) (hrooted : Rooted g all.elements)
    (hstep : joinStep all g s = .error e) : ∃ name, e = .ambiguousInheritance s.id name ∧ Clash all g s name := by
  obtain ⟨h, heq, -⟩ | ⟨name, herror, hclash⟩ :=
    joinStep_cases (hrooted.hasRoot s hs) fun t ht => hrooted.hasRoot t ht.mem_elements
  · exact nomatch heq.symm.trans hstep
  · exact ⟨name, Except.error.inj (hstep.symm.trans herror), hclash⟩

/-- What joins leave alone: the root objects of all given schemas that are not joined. -/
structure Framed (all : Registry Schema) (schemas : List Schema) (g h : Graph) : Prop where
  kept : Kept g h
  rooted : Rooted h all.elements
  rootObject_eq : ∀ t ∈ all.elements, t ∉ schemas → t.rootObject h = t.rootObject g

/-- **All joins** keep the frame, one after the other. -/
theorem framed_foldlM (schemas : List Schema) : ∀ g, (∀ s ∈ schemas, s ∈ all.elements) → Rooted g all.elements →
    schemas.foldlM (joinStep all) g = .ok h → Framed all schemas g h := by
  induction schemas with
  | nil =>
    intro g _ hrooted hjoins
    obtain rfl := Except.ok.inj hjoins
    exact ⟨Graph.Grown.kept (.refl g), hrooted, fun _ _ _ => rfl⟩
  | cons s schemas ih =>
    intro g hmem hrooted hjoins
    rw [List.foldlM_cons, bind_eq_ok_iff] at hjoins
    obtain ⟨next, hstep, hjoins⟩ := hjoins
    have hs : s ∈ all.elements := hmem s (by simp)
    have hjoined := joined_of_joinStep_eq_ok hs hrooted hstep
    obtain ⟨hrooted', hframe⟩ := hjoined.frame hs hrooted
    have hrest := ih next (fun t ht => hmem t (by simp [ht])) hrooted' hjoins
    refine ⟨hjoined.kept.trans hrest.kept, hrest.rooted, fun t ht hnot => ?_⟩
    rw [List.mem_cons, not_or] at hnot
    rw [hrest.rootObject_eq t ht hnot.2, hframe t ht hnot.1]

/-! ### The turn of a schema -/

/-- If a join fails, the ones before it do not. -/
theorem exists_of_foldlM_eq_error {e : SchemaError} (schemas : List Schema) :
    ∀ g, schemas.foldlM (joinStep all) g = .error e → ∃ earlier s later b, schemas = earlier ++ s :: later ∧
      earlier.foldlM (joinStep all) g = .ok b ∧ joinStep all b s = .error e := by
  induction schemas with
  | nil => exact fun g herror => nomatch herror
  | cons s schemas ih =>
    intro g herror
    rw [List.foldlM_cons, bind_eq_error_iff] at herror
    rcases herror with hstep | ⟨next, hstep, hrest⟩
    · exact ⟨[], s, schemas, g, rfl, rfl, hstep⟩
    · obtain ⟨earlier, t, later, b, rfl, hearlier, hlast⟩ := ih next hrest
      refine ⟨s :: earlier, t, later, b, rfl, ?_, hlast⟩
      rw [List.foldlM_cons, hstep]
      exact hearlier

/-- The turn of a schema is the workspace in which it is joined with its bases: the schemas before it in the order have
been joined. -/
def Turn (all roots : Registry Schema) (w : Workspace) (s : Schema) (turn : Workspace) : Prop :=
  ∃ earlier later, order all roots = .ok (earlier ++ s :: later) ∧
    (earlier.forM (joinBases all)).run.run w = (.ok (), turn)

theorem Turn.foldlM_eq_ok {turn : Workspace} (hturn : Turn all roots w s turn) : ∃ earlier later,
    order all roots = .ok (earlier ++ s :: later) ∧ earlier.foldlM (joinStep all) w.graph = .ok turn.graph := by
  obtain ⟨earlier, later, horder, hrun⟩ := hturn
  refine ⟨earlier, later, horder, ?_⟩
  cases hjoins : earlier.foldlM (joinStep all) w.graph with
  | error e =>
    obtain ⟨w', hrun'⟩ := run_joins_of_error hjoins
    exact nomatch (Prod.mk.inj (hrun'.symm.trans hrun)).1
  | ok graph =>
    obtain ⟨journal, hrun'⟩ := run_joins_of_ok hjoins
    rw [← (Prod.mk.inj (hrun'.symm.trans hrun)).2]

theorem exists_turn {earlier later : List Schema} (horder : order all roots = .ok (earlier ++ s :: later))
    (hjoins : earlier.foldlM (joinStep all) w.graph = .ok b) : ∃ turn, Turn all roots w s turn ∧ turn.graph = b := by
  obtain ⟨journal, hrun⟩ := run_joins_of_ok hjoins
  exact ⟨⟨b, journal⟩, ⟨earlier, later, horder, hrun⟩, rfl⟩

/-! ### What a schema holds in the end -/

/-- What a schema holds after a run: `g` is the graph before it, `b` the graph at the turn of the schema, and `h` the
graph after it. -/
structure Inherits (all : Registry Schema) (s : Schema) (g b h : Graph) : Prop where
  /-- The root object files its properties by name. -/
  filed : (s.rootObject h).properties.Filed h.propertyName
  /-- The names are those that the schema defines, and those that the schemas it can reach define. -/
  names : ∀ name, (s.property? h name).isSome ↔
    ∃ t, ReflTransGen (Extends all) s t ∧ (t.property? g name).isSome
  /-- What the schema defines itself it holds, or a required copy of it. -/
  own : ∀ name p, s.property? g name = some p →
    ∃ q, s.property? h name = some q ∧ Replaces b h (Demands all g h s name) p q
  /-- Everything else is the property that its bases hold, the same in all of them, or a required copy of it. -/
  inherited : ∀ name q, s.property? g name = none → s.property? h name = some q →
    ∃ t p, Extends all s t ∧ t.property? h name = some p ∧ Replaces b h (Demands all g h s name) p q ∧
      ∀ u p', Extends all s u → u.property? h name = some p' → p' = p

/-- How a schema is joined during a run from `g` to `h`: `b` and `c` are the graphs before and after its join. By then
the schema still holds what was read, and its bases hold what they hold in the end; after its join it holds what it
holds in the end. -/
structure Settled (all : Registry Schema) (s : Schema) (g b c h : Graph) : Prop where
  rooted : Rooted b all.elements
  hasRoot : s.HasRoot h
  joined : Joined all s b c
  kept : Kept c h
  before : s.rootObject b = s.rootObject g
  after : s.rootObject h = s.rootObject c
  base : ∀ t, Extends all s t → t.rootObject h = t.rootObject b

namespace Settled

variable {c : Graph} (hsettled : Settled all s g b c h) {name : String} {p : PropertyId}

include hsettled

theorem property?_before : s.property? b name = s.property? g name := by
  rw [Schema.property?, hsettled.before, Schema.property?]

theorem property?_after : s.property? h name = s.property? c name := by
  rw [Schema.property?, hsettled.after, Schema.property?]

theorem property?_base (ht : Extends all s t) : t.property? h name = t.property? b name := by
  rw [Schema.property?, hsettled.base t ht, Schema.property?]

theorem demands_eq : Demands all b b s name = Demands all g h s name := by
  have hbases : (∃ t, Extends all s t ∧ (t.rootObject b).properties.isEmpty = false) ↔
      ∃ t, Extends all s t ∧ (t.rootObject h).properties.isEmpty = false :=
    exists_congr fun t => and_congr_right fun ht => by rw [hsettled.base t ht]
  rw [Demands, Demands, hsettled.before, propext hbases]

/-- What a given schema holds when the schema is joined is replaced for good. -/
theorem replaces (ht : t ∈ all.elements) (hp : t.property? b name = some p)
    (hq : ∃ q, s.property? c name = some q ∧ Replaces b c (Demands all b b s name) p q) :
    ∃ q, s.property? h name = some q ∧ Replaces b h (Demands all g h s name) p q := by
  obtain ⟨q, hq, hreplaces⟩ := hq
  rw [hsettled.demands_eq] at hreplaces
  have hhas := ((hsettled.rooted.hasRoot t ht).has_of_property? hp).kept hsettled.joined.kept
  exact ⟨q, hsettled.property?_after.trans hq, hreplaces.kept hhas hsettled.kept⟩

/-- The schema's own properties win. -/
theorem own (hs : s ∈ all.elements) (hp : s.property? g name = some p) :
    ∃ q, s.property? h name = some q ∧ Replaces b h (Demands all g h s name) p q := by
  rw [← hsettled.property?_before] at hp
  exact hsettled.replaces hs hp (hsettled.joined.own name p hp)

/-- What the schema does not define itself comes from each base that has it. -/
theorem inherited (hnone : s.property? g name = none) (ht : Extends all s t) (hp : t.property? h name = some p) :
    ∃ q, s.property? h name = some q ∧ Replaces b h (Demands all g h s name) p q := by
  rw [← hsettled.property?_before] at hnone
  rw [hsettled.property?_base ht] at hp
  exact hsettled.replaces ht.mem_elements hp (hsettled.joined.inherited name t p hnone ht hp)

/-- Two bases hold the same property under a name. -/
theorem agree {u : Schema} {q : PropertyId} (ht : Extends all s t) (hu : Extends all s u)
    (hp : t.property? h name = some p) (hq : u.property? h name = some q) : p = q := by
  rw [hsettled.property?_base ht] at hp
  rw [hsettled.property?_base hu] at hq
  by_contra hne
  exact hsettled.joined.agree name ⟨t, u, p, q, ht, hu, hp, hq, hne⟩

/-- A property that the schema does not define itself is one of a base. -/
theorem exists_base {q : PropertyId} (hnone : s.property? g name = none) (hq : s.property? h name = some q) :
    ∃ t p, Extends all s t ∧ t.property? h name = some p := by
  by_contra hnot
  push Not at hnot
  have hnone' := hsettled.joined.none name (hsettled.property?_before.trans hnone) fun t ht => by
    rw [← hsettled.property?_base ht]
    exact Option.eq_none_iff_forall_ne_some.mpr fun p => hnot t p ht
  exact nomatch hq.symm.trans (hsettled.property?_after.trans hnone')

/-- The names of a schema in the end: those that it defines, and those of its bases. -/
theorem isSome_iff (hs : s ∈ all.elements) :
    (s.property? h name).isSome ↔
      (s.property? g name).isSome ∨ ∃ t, Extends all s t ∧ (t.property? h name).isSome := by
  simp only [Option.isSome_iff_exists]
  constructor
  · rintro ⟨q, hq⟩
    cases hown : s.property? g name with
    | some p => exact .inl ⟨p, rfl⟩
    | none =>
      obtain ⟨t, p, ht, hp⟩ := hsettled.exists_base hown hq
      exact .inr ⟨t, ht, p, hp⟩
  · rintro (⟨p, hp⟩ | ⟨t, ht, p, hp⟩)
    · obtain ⟨q, hq, -⟩ := hsettled.own hs hp
      exact ⟨q, hq⟩
    · cases hown : s.property? g name with
      | some p' =>
        obtain ⟨q, hq, -⟩ := hsettled.own hs hown
        exact ⟨q, hq⟩
      | none =>
        obtain ⟨q, hq, -⟩ := hsettled.inherited hown ht hp
        exact ⟨q, hq⟩

end Settled

/-- A schema is settled at its turn if its bases come before it and each schema is joined once. -/
theorem settled_of_foldlM {earlier later : List Schema} (hmem : ∀ t ∈ earlier ++ s :: later, t ∈ all.elements)
    (hnodup : (earlier ++ s :: later).Nodup) (hfirst : ∀ t, Extends all s t → t ∈ earlier)
    (hrooted : Rooted g all.elements) (hjoins : (earlier ++ s :: later).foldlM (joinStep all) g = .ok h) :
    ∃ b c, earlier.foldlM (joinStep all) g = .ok b ∧ joinStep all b s = .ok c ∧ Settled all s g b c h := by
  rw [List.foldlM_append, bind_eq_ok_iff] at hjoins
  obtain ⟨b, hearlier, hjoins⟩ := hjoins
  rw [List.foldlM_cons, bind_eq_ok_iff] at hjoins
  obtain ⟨c, hstep, hlater⟩ := hjoins
  have hs : s ∈ all.elements := hmem s (by simp)
  obtain ⟨-, hnodup', hdisjoint⟩ := List.nodup_append.mp hnodup
  have hbefore := framed_foldlM earlier g (fun t ht => hmem t (by simp [ht])) hrooted hearlier
  have hjoined := joined_of_joinStep_eq_ok hs hbefore.rooted hstep
  obtain ⟨hrooted', hframe⟩ := hjoined.frame hs hbefore.rooted
  have hafter := framed_foldlM later c (fun t ht => hmem t (by simp [ht])) hrooted' hlater
  refine ⟨b, c, hearlier, hstep, hbefore.rooted, hafter.rooted.hasRoot s hs, hjoined, hafter.kept, ?_, ?_, fun t ht => ?_⟩
  · exact hbefore.rootObject_eq s hs fun hmem' => hdisjoint s hmem' s (by simp) rfl
  · exact hafter.rootObject_eq s hs (List.nodup_cons.mp hnodup').1
  · -- A base comes before the schema, so it is joined neither here nor later.
    have hearly : t ∈ earlier := hfirst t ht
    have hne : t ≠ s := hdisjoint t hearly s (by simp)
    have hlate : t ∉ later := fun hmem' => hdisjoint t hearly t (by simp [hmem']) rfl
    rw [hafter.rootObject_eq t ht.mem_elements hlate, hframe t ht.mem_elements hne]

section Run

variable (hroots : ∀ r ∈ roots.elements, r ∈ all.elements) (horder : IsJoinOrder all roots schemas)
  (hrooted : Rooted g all.elements) (hjoins : schemas.foldlM (joinStep all) g = .ok h)

include hroots horder hrooted hjoins

/-- Every schema is settled at its turn: its bases come before it, and each schema is joined once. -/
theorem exists_settled {earlier later : List Schema} (hsplit : schemas = earlier ++ s :: later) :
    ∃ b c, earlier.foldlM (joinStep all) g = .ok b ∧ Settled all s g b c h := by
  have hmem : ∀ t ∈ schemas, t ∈ all.elements := fun t ht => ((horder.mem_iff t).mp ht).mem_elements hroots
  have hnodup := horder.nodup
  have hfirst := horder.bases_first earlier s later hsplit
  subst hsplit
  obtain ⟨b, c, hearlier, -, hsettled⟩ := settled_of_foldlM hmem hnodup hfirst hrooted hjoins
  exact ⟨b, c, hearlier, hsettled⟩

/-- The names of a reachable schema in the end: those that it defines, and those of its bases. -/
theorem isSome_property?_iff (hs : Reachable all roots s) (name : String) :
    (s.property? h name).isSome ↔
      (s.property? g name).isSome ∨ ∃ t, Extends all s t ∧ (t.property? h name).isSome := by
  obtain ⟨earlier, later, hsplit⟩ := List.append_of_mem ((horder.mem_iff s).mpr hs)
  obtain ⟨b, c, -, hsettled⟩ := exists_settled hroots horder hrooted hjoins hsplit
  exact hsettled.isSome_iff (hs.mem_elements hroots)

/-- A name that a schema holds in the end is defined by a schema that it can reach. -/
theorem exists_defining (name : String) : ∀ (earlier later : List Schema) (s : Schema), schemas = earlier ++ s :: later →
    (s.property? h name).isSome → ∃ t, ReflTransGen (Extends all) s t ∧ (t.property? g name).isSome := by
  intro earlier
  -- A base stands before the schema in the order, so the induction is on how many schemas do.
  induction hlength : earlier.length using Nat.strong_induction_on generalizing earlier with
  | _ n ih =>
    intro later s hsplit hsome
    have hs : Reachable all roots s := (horder.mem_iff s).mp (by simp [hsplit])
    rcases (isSome_property?_iff hroots horder hrooted hjoins hs name).mp hsome with hown | ⟨t, ht, hbase⟩
    · exact ⟨s, .refl, hown⟩
    · obtain ⟨before, between, rfl⟩ := List.append_of_mem (horder.bases_first earlier s later hsplit t ht)
      rw [List.append_assoc, List.cons_append] at hsplit
      have hlt : before.length < n := by
        rw [← hlength, List.length_append, List.length_cons]
        omega
      obtain ⟨u, hu, hdefines⟩ := ih before.length hlt before rfl _ t hsplit hbase
      exact ⟨u, hu.head ht, hdefines⟩

/-- A name that a schema defines is held in the end by all schemas that reach it. -/
theorem isSome_of_defining {name : String} (ht : (t.property? g name).isSome)
    (hpath : ReflTransGen (Extends all) s t) (hs : Reachable all roots s) : (s.property? h name).isSome := by
  induction hpath using ReflTransGen.head_induction_on with
  | refl => exact (isSome_property?_iff hroots horder hrooted hjoins hs name).mpr (.inl ht)
  | head hext _ ih =>
    exact (isSome_property?_iff hroots horder hrooted hjoins hs name).mpr (.inr ⟨_, hext, ih (hs.extends hext)⟩)

/-- **What a schema holds in the end.** -/
theorem exists_inherits {earlier later : List Schema} (hsplit : schemas = earlier ++ s :: later) :
    ∃ b, earlier.foldlM (joinStep all) g = .ok b ∧ Inherits all s g b h := by
  have hs : Reachable all roots s := (horder.mem_iff s).mp (by simp [hsplit])
  obtain ⟨b, c, hearlier, hsettled⟩ := exists_settled hroots horder hrooted hjoins hsplit
  refine ⟨b, hearlier, hsettled.hasRoot.filed, fun name => ⟨?_, ?_⟩, fun name p hp => ?_, fun name q hnone hq => ?_⟩
  · exact exists_defining hroots horder hrooted hjoins name earlier later s hsplit
  · rintro ⟨t, hpath, ht⟩
    exact isSome_of_defining hroots horder hrooted hjoins ht hpath hs
  · exact hsettled.own (hs.mem_elements hroots) hp
  · obtain ⟨t, p, ht, hp⟩ := hsettled.exists_base hnone hq
    obtain ⟨q', hq', hreplaces⟩ := hsettled.inherited hnone ht hp
    obtain rfl : q' = q := Option.some.inj (hq'.symm.trans hq)
    exact ⟨t, p, ht, hp, hreplaces, fun u p' hu hp' => hsettled.agree hu ht hp' hp⟩

end Run

/-! ### Runs -/

section Joins

variable (hroots : ∀ r ∈ roots.elements, r ∈ all.elements) (hrooted : Rooted w.graph all.elements)
  (horder : order all roots = .ok schemas) (hjoin : IsJoinOrder all roots schemas)

include hroots hrooted horder hjoin

/-- Joins that fail report a clash at the turn of a schema. -/
theorem clash_of_foldlM_eq_error {e : SchemaError} (herror : schemas.foldlM (joinStep all) w.graph = .error e) :
    ∃ s name turn, e = .ambiguousInheritance s.id name ∧ Reachable all roots s ∧ Turn all roots w s turn ∧
      Clash all turn.graph s name := by
  obtain ⟨earlier, s, later, b, rfl, hearlier, hstep⟩ := exists_of_foldlM_eq_error schemas w.graph herror
  have hmem : ∀ t ∈ earlier ++ s :: later, t ∈ all.elements :=
    fun t ht => ((hjoin.mem_iff t).mp ht).mem_elements hroots
  have hbefore := framed_foldlM earlier w.graph (fun t ht => hmem t (by simp [ht])) hrooted hearlier
  obtain ⟨name, rfl, hclash⟩ := clash_of_joinStep_eq_error (hmem s (by simp)) hbefore.rooted hstep
  obtain ⟨turn, hturn, rfl⟩ := exists_turn horder hearlier
  exact ⟨s, name, turn, rfl, (hjoin.mem_iff s).mp (by simp), hturn, hclash⟩

/-- If no join fails, no bases clash at the turn of a schema. -/
theorem not_clash_of_foldlM_eq_ok (hjoins : schemas.foldlM (joinStep all) w.graph = .ok h) {turn : Workspace}
    (hturn : Turn all roots w s turn) (name : String) : ¬ Clash all turn.graph s name := by
  obtain ⟨earlier, later, horder', hearlier⟩ := hturn.foldlM_eq_ok
  obtain rfl : schemas = earlier ++ s :: later := Except.ok.inj (horder.symm.trans horder')
  obtain ⟨b, c, hearlier', hsettled⟩ := exists_settled hroots hjoin hrooted hjoins rfl
  rw [Except.ok.inj (hearlier.symm.trans hearlier')]
  exact hsettled.joined.agree name

end Joins

/-- **The meaning of inheritance.** After a run without an error, every reachable schema holds what it defines and what
its bases hold, and it was joined with them at its turn. If no base is missing and no schema extends itself, a run fails
exactly if at the turn of a reachable schema two of its bases hold different properties under one name, and then it
reports such a schema and name. -/
theorem resolve_inherits_or_clashes {parsed : List Schema} (hparses : Parses w.graph parsed)
    (hall : all.Filed Schema.id) (hparsed : ∀ s ∈ all.elements, s ∈ parsed)
    (hroots : ∀ r ∈ roots.elements, r ∈ all.elements) :
    (∀ schemas w', (resolve all roots).run.run w = (.ok schemas, w') →
      Kept w.graph w'.graph ∧ ∀ s, Reachable all roots s →
        ∃ turn, Turn all roots w s turn ∧ Inherits all s w.graph turn.graph w'.graph) ∧
    ((∀ s, Reachable all roots s → (∀ base, ¬ Lacks all s base) ∧ ¬ TransGen (Extends all) s s) →
      ((∃ e, ((resolve all roots).run.run w).1 = .error e) ↔
        ∃ s name turn, Reachable all roots s ∧ Turn all roots w s turn ∧ Clash all turn.graph s name) ∧
      ∀ e, ((resolve all roots).run.run w).1 = .error e →
        ∃ s name turn, e = .ambiguousInheritance s.id name ∧ Reachable all roots s ∧ Turn all roots w s turn ∧
          Clash all turn.graph s name) := by
  have hrooted : Rooted w.graph all.elements := hparses.rooted.subset hparsed
  refine ⟨fun schemas w' hrun => ?_, fun hgraph => ?_⟩
  · obtain ⟨horder, hjoins⟩ := joins_of_resolve_eq_ok hrun
    have hjoin := isJoinOrder_of_order_eq_ok hall hroots horder
    have hmem : ∀ s ∈ schemas, s ∈ all.elements := fun s hs => ((hjoin.mem_iff s).mp hs).mem_elements hroots
    refine ⟨(framed_foldlM schemas w.graph hmem hrooted hjoins).kept, fun s hs => ?_⟩
    obtain ⟨earlier, later, hsplit⟩ := List.append_of_mem ((hjoin.mem_iff s).mpr hs)
    obtain ⟨b, hearlier, hinherits⟩ := exists_inherits hroots hjoin hrooted hjoins hsplit
    obtain ⟨turn, hturn, rfl⟩ := exists_turn (hsplit ▸ horder) hearlier
    exact ⟨turn, hturn, hinherits⟩
  · obtain ⟨schemas, horder⟩ := exists_order_eq_ok hall hroots hgraph
    have hjoin := isJoinOrder_of_order_eq_ok hall hroots horder
    have hfails : ∀ e, ((resolve all roots).run.run w).1 = .error e →
        schemas.foldlM (joinStep all) w.graph = .error e := by
      intro e herror
      rw [result_resolve, horder, Except.bind, map_eq_error_iff] at herror
      exact herror
    refine ⟨⟨?_, ?_⟩, fun e herror => ?_⟩
    · rintro ⟨e, herror⟩
      obtain ⟨s, name, turn, -, hclash⟩ := clash_of_foldlM_eq_error hroots hrooted horder hjoin (hfails e herror)
      exact ⟨s, name, turn, hclash⟩
    · rintro ⟨s, name, turn, -, hturn, hclash⟩
      cases hjoins : schemas.foldlM (joinStep all) w.graph with
      | error e =>
        refine ⟨e, ?_⟩
        rw [result_resolve, horder, Except.bind, map_eq_error_iff]
        exact hjoins
      | ok h => exact absurd hclash (not_clash_of_foldlM_eq_ok hroots hrooted horder hjoin hjoins hturn name)
    · exact clash_of_foldlM_eq_error hroots hrooted horder hjoin (hfails e herror)

/-! ### An invoice that extends a document -/

section Invoice

open Schemata.Graph (linked RequiredCopy)
open Schema (definition read parse sharingLevel)

/-- A document may have a note. -/
def documentData : Entries :=
  [(.text "id", .text "document"), (.text "schema", .mapping
    [(.text "type", .text "object"), (.text "properties", .mapping [(.text "note", .mapping (definition "string"))])])]

/-- An invoice is a document that must have a note. -/
def invoiceData : Entries :=
  [(.text "id", .text "invoice"), (.text "extends", .list [.text "document"]), (.text "schema", .mapping
    [(.text "type", .text "object"), (.text "required", .list [.text "note"])])]

/-- The document, and the graph with it. -/
def document : Graph × Schema :=
  (read {} documentData).toOption.getD default

/-- The invoice, and the graph with both. -/
def invoice : Graph × Schema :=
  (read document.1 invoiceData).toOption.getD default

theorem parse_document : parse {} documentData = .ok document := by
  refine Schema.parse_eq_of_plan_eq_nil (eq_ok_of_isSome_toOption (by decide +kernel)) ?_
  rw [Sharing.Linked.plan, Sharing.plan, Sharing.sweepTree, Sharing.candidates_eq_insertionSort]
  decide +kernel

theorem parse_invoice : parse document.1 invoiceData = .ok invoice := by
  refine Schema.parse_eq_of_plan_eq_nil (eq_ok_of_isSome_toOption (by decide +kernel)) ?_
  rw [Sharing.Linked.plan, Sharing.plan, Sharing.sweepTree, Sharing.candidates_eq_insertionSort]
  decide +kernel

/-- The document and the invoice. -/
def family : Registry Schema :=
  Registry.ofList Schema.id [document.2, invoice.2]

/-- The invoice inherits a required copy of the note. -/
theorem invoice_requires_note :
    ∃ schemas w' turn p q, (resolve family family).run.run ⟨invoice.1, []⟩ = (.ok schemas, w') ∧
      Turn family family ⟨invoice.1, []⟩ invoice.2 turn ∧ document.2.property? w'.graph "note" = some p ∧
        invoice.2.property? w'.graph "note" = some q ∧ RequiredCopy turn.graph w'.graph p q := by
  set result := (resolve family family).run.run ⟨invoice.1, []⟩ with hresult
  have hok : result.1 = .ok (result.1.toOption.getD default) := eq_ok_of_isSome_toOption (by decide +kernel)
  have hp : document.2.property? result.2.graph "note" = some ⟨0⟩ := by decide +kernel
  have hq : invoice.2.property? result.2.graph "note" = some ⟨3⟩ := by decide +kernel
  have hparses : Parses invoice.1 [invoice.2, document.2] := (Parses.start {}).parse parse_document |>.parse parse_invoice
  have hextends : Extends family invoice.2 document.2 := ⟨"document", by decide +kernel, by decide +kernel⟩
  obtain ⟨-, hinherits⟩ := (resolve_inherits_or_clashes (w := ⟨invoice.1, []⟩) hparses (Registry.filed_ofList _ _)
    (by decide +kernel) (fun _ hr => hr)).1 _ result.2 (Prod.ext hok rfl)
  obtain ⟨turn, hturn, hinvoice⟩ := hinherits invoice.2 (reachable_of_mem (by decide +kernel))
  obtain ⟨t, p, ht, hpt, hreplaces, hsame⟩ := hinvoice.inherited "note" ⟨3⟩ (by decide +kernel) hq
  obtain rfl : ⟨0⟩ = p := hsame document.2 ⟨0⟩ hextends hp
  refine ⟨_, result.2, turn, ⟨0⟩, ⟨3⟩, Prod.ext hok rfl, hturn, hp, hq, hreplaces.copy ⟨?_, ?_⟩ ?_⟩
  · decide +kernel
  · exact ⟨document.2, hextends, by decide +kernel⟩
  · decide +kernel

end Invoice

end Schemata.Lineage
