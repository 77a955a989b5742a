import Schemata.Proofs.Graph.Isomorphism
import Schemata.Proofs.Lineage.Soundness

/-!
# Joins in another order

The order in which schemas are joined depends on the order in which they were given, and so do the identities of the
nodes that joins add. What the joins come to does not. If the nodes of two graphs are paired off, and schemas with the
same identifier have paired roots and the same bases (`Lineage.Counterparts`), then one run of joins comes through if the
other does (`Counterparts.exists_foldlM_eq_ok`), and the nodes of the graphs that they come to are paired off again
(`Counterparts.isomorphism_after`).

The nodes that were there are paired as before. A node that joins have added is, or is held by, a copy of a property that
one schema got under one name (`Joins.Sprout`); it is paired with the copy that the schema with the same identifier got
under that name (`Joins.Tied`). What a schema holds is settled when it is joined, after its bases. So the pairs are found
by induction on how many schemas have been joined before it (`Counterparts.tiedProperties`).
-/

namespace Schemata.Lineage

open Schemata.Graph (Kept New Isomorphism Replaces RequiredCopy)
open Schema (Rooted)
open Relation (TransGen)

variable {all all' roots roots' : Registry Schema} {g g' h h' b b' c c' : Graph} {R : Node → Node → Prop}
  {s s' t t' : Schema} {x x' y y' : Node} {name name' : String} {p p' q q' r r' : PropertyId}

/-! ### Runs of joins -/

/-- A run of joins, bases first. -/
structure Joins where
  /-- The schemas that are given. -/
  all : Registry Schema
  /-- The graph before the run. -/
  before : Graph
  /-- The schemas that are joined, in order. -/
  order : List Schema
  /-- The graph after the run. -/
  after : Graph
  rooted : Rooted before all.elements
  mem : ∀ s ∈ order, s ∈ all.elements
  nodup : order.Nodup
  bases_first : ∀ earlier s later, order = earlier ++ s :: later → ∀ t, Extends all s t → t ∈ earlier
  joins : order.foldlM (joinStep all) before = .ok after

namespace Joins

variable {J J' : Joins}

theorem framed (J : Joins) : Framed J.all J.order J.before J.after :=
  framed_foldlM J.order J.before J.mem J.rooted J.joins

theorem hasRoot (J : Joins) (hs : s ∈ J.all.elements) : s.HasRoot J.after :=
  J.framed.rooted.hasRoot s hs

theorem rootItem_eq (J : Joins) (hs : s ∈ J.all.elements) : s.rootItem J.after = s.rootItem J.before :=
  (J.rooted.hasRoot s hs).rootItem_eq J.framed.kept

/-- Only the root objects of joined schemas change. -/
theorem item_eq (J : Joins) {i : ItemId} (hi : J.before.Present (.item i))
    (hne : ∀ s ∈ J.order, i ≠ s.rootItem J.before) :
    J.after.item i = J.before.item i := by
  have hspares := spares_foldlM (J := (· ∈ J.order)) J.mem J.order J.before (fun _ hs => hs) J.rooted J.joins
  rcases hspares.item_cases i hi with heq | ⟨s, o, properties, hs, -, heq, -⟩
  · exact heq
  · exact absurd heq (hne s hs)

/-- What a joined schema extends is joined as well. -/
theorem mem_of_extends (hs : s ∈ J.order) (ht : Extends J.all s t) : t ∈ J.order := by
  obtain ⟨earlier, later, hsplit⟩ := List.append_of_mem hs
  rw [hsplit]
  exact List.mem_append_left _ (J.bases_first earlier s later hsplit t ht)

/-- A step of a run, from the graph before the join of a schema to the graph after it. -/
structure Step (J : Joins) (s : Schema) (b c : Graph) : Prop where
  earlier : ∃ earlier later, J.order = earlier ++ s :: later ∧ earlier.foldlM (joinStep J.all) J.before = .ok b
  join : joinStep J.all b s = .ok c
  settled : Settled J.all s J.before b c J.after

theorem Step.rootObject_eq (hstep : J.Step s b c) :
    ∃ properties, s.rootObject J.after = { s.rootObject J.before with properties } := by
  obtain ⟨properties, heq⟩ := hstep.settled.joined.rootObject_eq
  exact ⟨properties, by rw [hstep.settled.after, heq, hstep.settled.before]⟩

theorem exists_step (hs : s ∈ J.order) : ∃ b c, J.Step s b c := by
  obtain ⟨earlier, later, hsplit⟩ := List.append_of_mem hs
  have hmem := J.mem
  have hnodup := J.nodup
  have hjoins := J.joins
  rw [hsplit] at hmem hnodup hjoins
  obtain ⟨b, c, hearlier, hstep, hsettled⟩ :=
    settled_of_foldlM hmem hnodup (J.bases_first earlier s later hsplit) J.rooted hjoins
  exact ⟨b, c, ⟨earlier, later, hsplit, hearlier⟩, hstep, hsettled⟩

namespace Step

variable (hstep : J.Step s b c)

include hstep

theorem mem : s ∈ J.order := by
  obtain ⟨earlier, later, hsplit, -⟩ := hstep.earlier
  simp [hsplit]

theorem kept : Kept J.before b := by
  obtain ⟨earlier, later, hsplit, hearlier⟩ := hstep.earlier
  exact (framed_foldlM earlier J.before (fun t ht => J.mem t (by simp [hsplit, ht])) J.rooted hearlier).kept

/-- Of two steps one is made before the other. -/
theorem cases (hstep' : J.Step t b' c') : s = t ∧ b = b' ∧ c = c' ∨ Kept c b' ∨ Kept c' b := by
  obtain ⟨⟨earlier, later, hsplit, hearlier⟩, hjoin, -⟩ := hstep
  obtain ⟨⟨earlier', later', hsplit', hearlier'⟩, hjoin', -⟩ := hstep'
  -- The joins between two steps keep what the first of them has come to.
  have hkept : ∀ {s t : Schema} {b b' c : Graph} {earlier between later : List Schema},
      J.order = earlier ++ s :: (between ++ t :: later) → earlier.foldlM (joinStep J.all) J.before = .ok b →
      joinStep J.all b s = .ok c → (earlier ++ s :: between).foldlM (joinStep J.all) J.before = .ok b' → Kept c b' := by
    intro s t b b' c earlier between later hsplit hearlier hjoin hboth
    have hmem : ∀ {u}, u ∈ earlier ++ s :: (between ++ t :: later) → u ∈ J.all.elements :=
      fun hu => J.mem _ (hsplit ▸ hu)
    have hs : s ∈ J.all.elements := hmem (by simp)
    have hrooted := (framed_foldlM earlier J.before (fun u hu => hmem (by simp [hu])) J.rooted hearlier).rooted
    have hrooted' := ((joined_of_joinStep_eq_ok hs hrooted hjoin).frame hs hrooted).1
    rw [List.foldlM_append, hearlier] at hboth
    change (s :: between).foldlM (joinStep J.all) b = .ok b' at hboth
    rw [List.foldlM_cons, hjoin] at hboth
    exact (framed_foldlM between c (fun u hu => hmem (by simp [hu])) hrooted' hboth).kept
  rcases List.append_eq_append_iff.mp (hsplit.symm.trans hsplit') with ⟨between, rfl, heq⟩ | ⟨between, rfl, heq⟩
  · cases between with
    | nil =>
      obtain ⟨rfl, -⟩ := List.cons.inj heq
      rw [List.append_nil] at hearlier'
      obtain rfl := Except.ok.inj (hearlier.symm.trans hearlier')
      exact .inl ⟨rfl, rfl, Except.ok.inj (hjoin.symm.trans hjoin')⟩
    | cons u between =>
      obtain ⟨rfl, rfl⟩ := List.cons.inj heq
      exact .inr (.inl (hkept hsplit hearlier hjoin hearlier'))
  · cases between with
    | nil =>
      obtain ⟨rfl, -⟩ := List.cons.inj heq
      rw [List.append_nil] at hearlier
      obtain rfl := Except.ok.inj (hearlier.symm.trans hearlier')
      exact .inl ⟨rfl, rfl, Except.ok.inj (hjoin.symm.trans hjoin')⟩
    | cons u between =>
      obtain ⟨rfl, rfl⟩ := List.cons.inj heq
      exact .inr (.inr (hkept hsplit' hearlier' hjoin' hearlier))

/-- A node is new at one step only. -/
theorem eq_of_new (hstep' : J.Step t b' c') (hx : New b c x) (hx' : New b' c' x) : s = t ∧ b = b' ∧ c = c' := by
  rcases hstep.cases hstep' with heq | hkept | hkept
  · exact heq
  · exact absurd hx' (hx.present.kept hkept).not_new
  · exact absurd hx (hx'.present.kept hkept).not_new

end Step

/-! ### Copies -/

/-- A schema holds a property under a name that is new since the schema was joined, as is the item that it holds. -/
structure Sprout (J : Joins) (s : Schema) (name : String) (q : PropertyId) : Prop where
  property?_eq : s.property? J.after name = some q
  new : ∃ b c, J.Step s b c ∧ New b c (.property q) ∧ New b c (.item (J.after.property q).item)

/-- Copies that schemas with one identifier hold under one name, with the same field and the same scalar. -/
structure Sprouts (J J' : Joins) (q q' : PropertyId) : Prop where
  sprout : ∃ s s' name, s.id = s'.id ∧ J.Sprout s name q ∧ J'.Sprout s' name q'
  field_eq : (J.after.property q).toField = (J'.after.property q').toField
  held_eq : ∃ scalar, J.after.held q = .scalar scalar ∧ J'.after.held q' = .scalar scalar

/-- Nodes are tied if they have been related before the runs, or if they have come up as copies. -/
inductive Tied (J J' : Joins) (R : Node → Node → Prop) : Node → Node → Prop where
  /-- Both nodes were there. -/
  | old {x x' : Node} (hx : R x x') : Tied J J' R x x'
  /-- Both nodes are copies. -/
  | property {q q' : PropertyId} (hq : Sprouts J J' q q') : Tied J J' R (.property q) (.property q')
  /-- Both nodes are the items of copies. -/
  | item {q q' : PropertyId} (hq : Sprouts J J' q q') :
    Tied J J' R (.item (J.after.property q).item) (.item (J'.after.property q').item)

theorem Step.sprout (hstep : J.Step s b c) (hq : s.property? J.after name = some q)
    (hcopy : RequiredCopy b J.after p q) : J.Sprout s name q := by
  have hhas : c.Has q := hstep.settled.joined.hasRoot.has_of_property? (hstep.settled.property?_after.symm.trans hq)
  refine ⟨hq, b, c, hstep, ⟨hcopy.new.1, hhas.property_lt⟩, hcopy.new_item.1, ?_⟩
  rw [hstep.settled.kept.property_eq q hhas.property_lt]
  exact hhas.item_lt

namespace Sprout

variable (hq : J.Sprout s name q)

include hq

theorem mem : s ∈ J.order := by
  obtain ⟨b, c, hstep, -⟩ := hq.new
  exact hstep.mem

theorem name_eq : J.after.propertyName q = name :=
  ((J.hasRoot (J.mem s hq.mem)).filed.get?_eq_some_iff.mp hq.property?_eq).2

theorem present : J.after.Present (.property q) ∧ J.after.Present (.item (J.after.property q).item) := by
  have hhas := (J.hasRoot (J.mem s hq.mem)).has_of_property? hq.property?_eq
  exact ⟨hhas.property_lt, hhas.item_lt⟩

theorem not_present : ¬ J.before.Present (.property q) ∧ ¬ J.before.Present (.item (J.after.property q).item) := by
  obtain ⟨b, c, hstep, hproperty, hitem⟩ := hq.new
  exact ⟨fun hold => (hold.kept hstep.kept).not_new hproperty, fun hold => (hold.kept hstep.kept).not_new hitem⟩

/-- A copy comes up for one schema and under one name. -/
theorem unique (hq' : J.Sprout t name' q) : s = t ∧ name = name' := by
  obtain ⟨b, c, hstep, hproperty, -⟩ := hq.new
  obtain ⟨b', c', hstep', hproperty', -⟩ := hq'.new
  exact ⟨(hstep.eq_of_new hstep' hproperty hproperty').1, hq.name_eq.symm.trans hq'.name_eq⟩

/-- Different copies hold different items. -/
theorem eq_of_item_eq (hr : J.Sprout t name' r) (heq : (J.after.property q).item = (J.after.property r).item) :
    q = r := by
  obtain ⟨b, c, hstep, hproperty, hitem⟩ := hq.new
  obtain ⟨b', c', hstep', hproperty', hitem'⟩ := hr.new
  obtain ⟨rfl, rfl, rfl⟩ := hstep.eq_of_new hstep' hitem (heq ▸ hitem')
  rw [hstep.settled.kept.property_eq q hproperty.present, hstep.settled.kept.property_eq r hproperty'.present] at heq
  exact eq_of_item_eq_of_new (hstep.settled.rooted.hasRoot s (J.mem s hq.mem)) hstep.join hproperty hproperty' heq

end Sprout

theorem Sprouts.symm (hq : Sprouts J J' q q') : Sprouts J' J q' q := by
  obtain ⟨⟨s, s', name, hid, hs, hs'⟩, hfield, scalar, hheld, hheld'⟩ := hq
  exact ⟨⟨s', s, name, hid.symm, hs', hs⟩, hfield.symm, scalar, hheld', hheld⟩

theorem Tied.symm (hx : Tied J J' R x x') : Tied J' J (fun x' x => R x x') x' x := by
  cases hx with
  | old hx => exact .old hx
  | property hq => exact .property hq.symm
  | item hq => exact .item hq.symm

/-- Schemas hold tied properties under the same names. -/
def TiedProperties (J J' : Joins) (R : Node → Node → Prop) (s s' : Schema) : Prop :=
  ∀ name, Option.Rel (fun p p' => J.Tied J' R (.property p) (.property p')) (s.property? J.after name)
    (s'.property? J'.after name)

theorem TiedProperties.symm (hs : TiedProperties J J' R s s') : TiedProperties J' J (fun x' x => R x x') s' s := by
  intro name
  have hname := hs name
  generalize s.property? J.after name = found, s'.property? J'.after name = found' at hname
  cases hname with
  | none => exact .none
  | some hp => exact .some hp.symm

end Joins

/-! ### Counterparts -/

/-- Schemas of two graphs with the same identifiers, the same bases and related roots. -/
structure Counterparts (all all' : Registry Schema) (g g' : Graph) (R : Node → Node → Prop) : Prop where
  filed : all.Filed Schema.id
  filed' : all'.Filed Schema.id
  isomorphism : Isomorphism g g' R
  root : ∀ s ∈ all.elements, ∀ s' ∈ all'.elements, s.id = s'.id → R (.property s.root) (.property s'.root)
  bases_iff : ∀ s ∈ all.elements, ∀ s' ∈ all'.elements, s.id = s'.id → ∀ base, base ∈ s.bases ↔ base ∈ s'.bases
  exists_left : ∀ s ∈ all.elements, ∃ s' ∈ all'.elements, s.id = s'.id
  exists_right : ∀ s' ∈ all'.elements, ∃ s ∈ all.elements, s.id = s'.id

namespace Counterparts

theorem symm (hall : Counterparts all all' g g' R) : Counterparts all' all g' g fun x' x => R x x' where
  filed := hall.filed'
  filed' := hall.filed
  isomorphism := hall.isomorphism.symm
  root s' hs' s hs heq := hall.root s hs s' hs' heq.symm
  bases_iff s' hs' s hs heq base := (hall.bases_iff s hs s' hs' heq.symm base).symm
  exists_left s' hs' := (hall.exists_right s' hs').imp fun _ hs => ⟨hs.1, hs.2.symm⟩
  exists_right s hs := (hall.exists_left s hs).imp fun _ hs' => ⟨hs'.1, hs'.2.symm⟩

section Given

variable (hall : Counterparts all all' g g' R)

include hall

/-! ### The order -/

/-- A schema that has another one as its counterpart extends the counterparts of what that one extends. -/
theorem exists_extends (hs : s ∈ all.elements) (hs' : s' ∈ all'.elements) (hid : s.id = s'.id) (ht : Extends all s t) :
    ∃ t', Extends all' s' t' ∧ t.id = t'.id := by
  obtain ⟨t', ht', hid'⟩ := hall.exists_left t ht.mem_elements
  refine ⟨t', (extends_iff hall.filed' ht').mpr ?_, hid'⟩
  rw [← hid', ← hall.bases_iff s hs s' hs' hid]
  exact (extends_iff hall.filed ht.mem_elements).mp ht

theorem exists_transGen (hs : s ∈ all.elements) (hs' : s' ∈ all'.elements) (hid : s.id = s'.id)
    (ht : TransGen (Extends all) s t) : ∃ t', TransGen (Extends all') s' t' ∧ t.id = t'.id := by
  have hmem : ∀ {t}, TransGen (Extends all') s' t → t ∈ all'.elements := by
    intro t ht
    obtain ⟨u, -, hlast⟩ := TransGen.tail'_iff.mp ht
    exact hlast.mem_elements
  induction ht with
  | single hext =>
    obtain ⟨t', ht', hid'⟩ := hall.exists_extends hs hs' hid hext
    exact ⟨t', .single ht', hid'⟩
  | tail hpath hext ih =>
    obtain ⟨u', hu', hidu⟩ := ih
    obtain ⟨v, -, hlast⟩ := TransGen.tail'_iff.mp hpath
    obtain ⟨t', ht', hid'⟩ := hall.exists_extends hlast.mem_elements (hmem hu') hidu hext
    exact ⟨t', hu'.tail ht', hid'⟩

theorem not_lacks {base : String} (hs : s ∈ all.elements) (hs' : s' ∈ all'.elements) (hid : s.id = s'.id)
    (hnot : ¬ Lacks all s base) : ¬ Lacks all' s' base := by
  rintro ⟨hbase, hnone⟩
  refine hnot ⟨(hall.bases_iff s hs s' hs' hid base).mpr hbase, Option.eq_none_iff_forall_ne_some.mpr fun t ht => ?_⟩
  obtain ⟨hmem, rfl⟩ := hall.filed.get?_eq_some_iff.mp ht
  obtain ⟨t', ht', hid'⟩ := hall.exists_left t hmem
  rw [hid', hall.filed'.get?_of_mem ht'] at hnone
  exact nomatch hnone

variable (hroots : ∀ r ∈ roots.elements, r ∈ all.elements) (hroots' : ∀ r' ∈ roots'.elements, r' ∈ all'.elements)
  (hcounter : ∀ r ∈ roots.elements, ∃ r' ∈ roots'.elements, r.id = r'.id)

include hroots hroots' hcounter

theorem exists_reachable (hs : Reachable all roots s) : ∃ s', Reachable all' roots' s' ∧ s.id = s'.id := by
  obtain ⟨root, hroot, hpath⟩ := hs
  obtain ⟨root', hroot', hid⟩ := hcounter root hroot
  rcases Relation.reflTransGen_iff_eq_or_transGen.mp hpath with rfl | hpath
  · exact ⟨root', reachable_of_mem hroot', hid⟩
  · obtain ⟨s', hs', hid'⟩ := hall.exists_transGen (hroots root hroot) (hroots' root' hroot') hid hpath
    exact ⟨s', ⟨root', hroot', hs'.to_reflTransGen⟩, hid'⟩

omit hcounter in
/-- **There is one order if there is another.** -/
theorem exists_order (hcounter' : ∀ r' ∈ roots'.elements, ∃ r ∈ roots.elements, r'.id = r.id) {schemas : List Schema}
    (horder : order all roots = .ok schemas) : ∃ schemas', order all' roots' = .ok schemas' := by
  obtain ⟨-, -, -, hcomplete, hacyclic⟩ | ⟨s, herror, -⟩ | ⟨s, base, herror, -⟩ := order_cases hall.filed hroots
  · refine exists_order_eq_ok hall.filed' hroots' fun s' hs' => ?_
    obtain ⟨s, hs, hid⟩ := hall.symm.exists_reachable hroots' hroots hcounter' hs'
    have hmem := hs.mem_elements hroots
    have hmem' := hs'.mem_elements hroots'
    refine ⟨fun base => hall.not_lacks hmem hmem' hid.symm (hcomplete s hs base), fun hcycle => hacyclic s hs ?_⟩
    obtain ⟨t, ht, hid'⟩ := hall.symm.exists_transGen hmem' hmem hid hcycle
    obtain ⟨u, -, hlast⟩ := TransGen.tail'_iff.mp ht
    obtain rfl := hall.filed.eq_of_name_eq hlast.mem_elements hmem (hid'.symm.trans hid)
    exact ht
  · exact nomatch horder.symm.trans herror
  · exact nomatch horder.symm.trans herror

end Given

/-! ### Root objects -/

theorem rootObject (hall : Counterparts all all' g g' R) (hrooted : Rooted g all.elements)
    (hrooted' : Rooted g' all'.elements) (hs : s ∈ all.elements) (hs' : s' ∈ all'.elements) (hid : s.id = s'.id) :
    (s.rootObject g).Matches R (s'.rootObject g') :=
  hall.isomorphism.matches_of_object? (hall.isomorphism.held (hall.root s hs s' hs' hid))
    (hrooted.hasRoot s hs).object (hrooted'.hasRoot s' hs').object

/-! ### Tied nodes -/

section Runs

variable {J J' : Joins} (hall : Counterparts J.all J'.all J.before J'.before R)

include hall

theorem eq_of_sprouts (hq : J.Sprouts J' q q') (hr : J.Sprouts J' r r') (heq : q = r) : q' = r' := by
  obtain ⟨s, s', name, hid, hs, hs'⟩ := hq.sprout
  obtain ⟨t, t', name', hid', ht, ht'⟩ := hr.sprout
  obtain ⟨rfl, rfl⟩ := hs.unique (heq ▸ ht)
  obtain rfl := hall.filed'.eq_of_name_eq (J'.mem s' hs'.mem) (J'.mem t' ht'.mem) (hid.symm.trans hid')
  exact Option.some.inj (hs'.property?_eq.symm.trans ht'.property?_eq)

theorem present_tied (hx : J.Tied J' R x x') : J.after.Present x ∧ J'.after.Present x' := by
  cases hx with
  | old hx =>
    obtain ⟨hpresent, hpresent'⟩ := hall.isomorphism.present hx
    exact ⟨hpresent.kept J.framed.kept, hpresent'.kept J'.framed.kept⟩
  | property hq =>
    obtain ⟨s, s', name, -, hs, hs'⟩ := hq.sprout
    exact ⟨hs.present.1, hs'.present.1⟩
  | item hq =>
    obtain ⟨s, s', name, -, hs, hs'⟩ := hq.sprout
    exact ⟨hs.present.2, hs'.present.2⟩

theorem eq_of_tied (hx : J.Tied J' R x x') (hy : J.Tied J' R y y') (heq : x = y) : x' = y' := by
  have hold : ∀ {x x'}, R x x' → J.before.Present x := fun hx => (hall.isomorphism.present hx).1
  have hproperty : ∀ {q q'}, J.Sprouts J' q q' → ¬ J.before.Present (.property q) := by
    intro q q' hq
    obtain ⟨s, s', name, -, hs, -⟩ := hq.sprout
    exact hs.not_present.1
  have hitem : ∀ {q q'}, J.Sprouts J' q q' → ¬ J.before.Present (.item (J.after.property q).item) := by
    intro q q' hq
    obtain ⟨s, s', name, -, hs, -⟩ := hq.sprout
    exact hs.not_present.2
  cases hx with
  | old hx =>
    cases hy with
    | old hy => exact (hall.isomorphism.unique hx hy).mp heq
    | property hq => exact absurd (hold hx) (heq ▸ hproperty hq)
    | item hq => exact absurd (hold hx) (heq ▸ hitem hq)
  | property hq =>
    cases hy with
    | old hy => exact absurd (hold hy) (heq ▸ hproperty hq)
    | property hr => exact congrArg Node.property (hall.eq_of_sprouts hq hr (Node.property.inj heq))
    | item hr => exact nomatch heq
  | item hq =>
    cases hy with
    | old hy => exact absurd (hold hy) (heq ▸ hitem hq)
    | property hr => exact nomatch heq
    | item hr =>
      obtain ⟨s, s', name, -, hs, -⟩ := hq.sprout
      obtain ⟨t, t', name', -, ht, -⟩ := hr.sprout
      rw [hall.eq_of_sprouts hq hr (hs.eq_of_item_eq ht (Node.item.inj heq))]

theorem unique_tied (hx : J.Tied J' R x x') (hy : J.Tied J' R y y') : x = y ↔ x' = y' :=
  ⟨hall.eq_of_tied hx hy, hall.symm.eq_of_tied hx.symm hy.symm⟩

/-- Tied properties have the same field, and hold the same scalar or items that cannot be null. -/
theorem held_tied (hp : J.Tied J' R (.property p) (.property p')) :
    (J.after.property p).toField = (J'.after.property p').toField ∧
      ((∃ scalar, J.after.held p = .scalar scalar ∧ J'.after.held p' = .scalar scalar) ∨
        (J.after.held p).isNull = false ∧ (J'.after.held p').isNull = false) := by
  generalize hx : Node.property p = x, hx' : Node.property p' = x' at hp
  cases hp with
  | old hp =>
    obtain rfl := hx
    obtain rfl := hx'
    have hitem := hall.isomorphism.held hp
    obtain ⟨hproperty, hproperty'⟩ := hall.isomorphism.present hp
    obtain ⟨hlt, hlt'⟩ := hall.isomorphism.present hitem
    have hhas : J.before.Has p := ⟨hproperty, hlt⟩
    have hhas' : J'.before.Has p' := ⟨hproperty', hlt'⟩
    refine ⟨?_, ?_⟩
    · rw [J.framed.kept.property_eq p hproperty, J'.framed.kept.property_eq p' hproperty']
      exact hall.isomorphism.field_eq hp
    · rw [hhas.isNull_eq J.framed.kept, hhas'.isNull_eq J'.framed.kept]
      have hmatches := hall.isomorphism.item hitem
      generalize hheld : J.before.item _ = item, hheld' : J'.before.item _ = item' at hmatches
      cases hmatches with
      | scalar scalar =>
        exact .inl ⟨scalar, hhas.held_eq_scalar J.framed.kept hheld, hhas'.held_eq_scalar J'.framed.kept hheld'⟩
      | array he => exact .inr ⟨by rw [Graph.held, hheld]; rfl, by rw [Graph.held, hheld']; rfl⟩
      | object ho => exact .inr ⟨by rw [Graph.held, hheld]; rfl, by rw [Graph.held, hheld']; rfl⟩
  | property hq =>
    obtain rfl := Node.property.inj hx
    obtain rfl := Node.property.inj hx'
    exact ⟨hq.field_eq, .inl hq.held_eq⟩
  | item hq => cases hx

/-- What schemas hold in place of tied properties is tied, if they demand a value alike. -/
theorem tied_of_replaces {must must' : Prop} (hstep : J.Step s b c) (hstep' : J'.Step s' b' c') (hid : s.id = s'.id)
    (hmust : must ↔ must') (hp : J.Tied J' R (.property p) (.property p')) (hq : s.property? J.after name = some q)
    (hq' : s'.property? J'.after name = some q') (hreplaces : Replaces b J.after must p q)
    (hreplaces' : Replaces b' J'.after must' p' q') : J.Tied J' R (.property q) (.property q') := by
  obtain ⟨hfield, hheld⟩ := hall.held_tied hp
  have hnull : (J.after.held p).isNull = (J'.after.held p').isNull := by
    rcases hheld with ⟨scalar, hscalar, hscalar'⟩ | ⟨hnot, hnot'⟩
    · rw [hscalar, hscalar']
    · rw [hnot, hnot']
  by_cases hcopies : must ∧ (J.after.held p).isNull = true
  · have hcopy := hreplaces.copy hcopies.1 hcopies.2
    have hcopy' := hreplaces'.copy (hmust.mp hcopies.1) (hnull ▸ hcopies.2)
    refine .property ⟨⟨s, s', name, hid, hstep.sprout hq hcopy, hstep'.sprout hq' hcopy'⟩, ?_, ?_⟩
    · rw [hcopy.property_eq, hcopy'.property_eq]
      exact hfield
    · obtain ⟨scalar, -, hscalar, hcopied⟩ := hcopy.held_eq
      obtain ⟨scalar', -, hscalar', hcopied'⟩ := hcopy'.held_eq
      rcases hheld with ⟨both, hboth, hboth'⟩ | ⟨hnot, -⟩
      · obtain rfl := Item.scalar.inj (hscalar.symm.trans hboth)
        obtain rfl := Item.scalar.inj (hscalar'.symm.trans hboth')
        exact ⟨_, hcopied, hcopied'⟩
      · exact nomatch hnot.symm.trans hcopies.2
  · rw [hreplaces.same hcopies, hreplaces'.same (by rwa [← hmust, ← hnull])]
    exact hp

/-! ### What schemas hold -/

/-- Schemas demand a value alike if their bases hold tied properties. -/
theorem demands_of_demands (hs : s ∈ J.order) (hs' : s' ∈ J'.order) (hid : s.id = s'.id)
    (hbases : ∀ t t', Extends J.all s t → Extends J'.all s' t' → t.id = t'.id → J.TiedProperties J' R t t')
    (hdemands : Demands J.all J.before J.after s name) : Demands J'.all J'.before J'.after s' name := by
  obtain ⟨hrequired, t, ht, hsome⟩ := hdemands
  refine ⟨?_, ?_⟩
  · rwa [← (hall.rootObject J.rooted J'.rooted (J.mem s hs) (J'.mem s' hs') hid).required_eq]
  · obtain ⟨t', ht', hid'⟩ := hall.exists_extends (J.mem s hs) (J'.mem s' hs') hid ht
    obtain ⟨p, hp⟩ := Registry.isEmpty_eq_false_iff.mp hsome
    have hboth := hbases t t' ht ht' hid' (J.after.propertyName p)
    have hget : t.property? J.after (J.after.propertyName p) = some p :=
      (J.hasRoot ht.mem_elements).filed.get?_of_mem hp
    rw [hget] at hboth
    obtain ⟨p', hp', -⟩ := Graph.exists_of_some_rel hboth
    exact ⟨t', ht', Registry.isEmpty_eq_false_iff.mpr ⟨p', Registry.mem_elements_of_get? hp'⟩⟩

/-- What one schema holds is tied to what its counterpart holds, if this is so for their bases. -/
theorem tiedProperties_of_bases (hs : s ∈ J.order) (hs' : s' ∈ J'.order) (hid : s.id = s'.id)
    (hbases : ∀ t t', Extends J.all s t → Extends J'.all s' t' → t.id = t'.id → J.TiedProperties J' R t t') :
    J.TiedProperties J' R s s' := by
  intro name
  have hmem := J.mem s hs
  have hmem' := J'.mem s' hs'
  obtain ⟨b, c, hstep⟩ := J.exists_step hs
  obtain ⟨b', c', hstep'⟩ := J'.exists_step hs'
  have hdemands : Demands J.all J.before J.after s name ↔ Demands J'.all J'.before J'.after s' name :=
    ⟨hall.demands_of_demands hs hs' hid hbases, hall.symm.demands_of_demands hs' hs hid.symm
      fun t' t ht' ht hid' => (hbases t t' ht ht' hid'.symm).symm⟩
  have hown : Option.Rel (fun p p' => R (.property p) (.property p')) (s.property? J.before name)
      (s'.property? J'.before name) := (hall.rootObject J.rooted J'.rooted hmem hmem' hid).properties.get? name
  cases hp : s.property? J.before name with
  | some p =>
    rw [hp] at hown
    obtain ⟨p', hp', htied⟩ := Graph.exists_of_some_rel hown
    obtain ⟨q, hq, hreplaces⟩ := hstep.settled.own hmem hp
    obtain ⟨q', hq', hreplaces'⟩ := hstep'.settled.own hmem' hp'
    rw [hq, hq']
    exact .some (hall.tied_of_replaces hstep hstep' hid hdemands (.old htied) hq hq' hreplaces hreplaces')
  | none =>
    have hp' : s'.property? J'.before name = none := by
      rw [hp] at hown
      generalize s'.property? J'.before name = found' at hown
      cases hown
      rfl
    by_cases hbase : ∃ t p, Extends J.all s t ∧ t.property? J.after name = some p
    · obtain ⟨t, p, ht, hbase⟩ := hbase
      obtain ⟨t', ht', hid'⟩ := hall.exists_extends hmem hmem' hid ht
      have hboth := hbases t t' ht ht' hid' name
      rw [hbase] at hboth
      obtain ⟨p', hbase', htied⟩ := Graph.exists_of_some_rel hboth
      obtain ⟨q, hq, hreplaces⟩ := hstep.settled.inherited hp ht hbase
      obtain ⟨q', hq', hreplaces'⟩ := hstep'.settled.inherited hp' ht' hbase'
      rw [hq, hq']
      exact .some (hall.tied_of_replaces hstep hstep' hid hdemands htied hq hq' hreplaces hreplaces')
    · have hnone : s.property? J.after name = none := by
        rw [Option.eq_none_iff_forall_ne_some]
        exact fun q hq => hbase (hstep.settled.exists_base hp hq)
      have hnone' : s'.property? J'.after name = none := by
        rw [Option.eq_none_iff_forall_ne_some]
        intro q' hq'
        obtain ⟨t', p', ht', hbase'⟩ := hstep'.settled.exists_base hp' hq'
        obtain ⟨t, ht, hid'⟩ := hall.symm.exists_extends hmem' hmem hid.symm ht'
        have hboth := hbases t t' ht ht' hid'.symm name
        rw [hbase'] at hboth
        obtain ⟨p, hp, -⟩ := Graph.exists_of_rel_some hboth
        exact hbase ⟨t, p, ht, hp⟩
      rw [hnone, hnone']
      exact .none

/-- **Counterparts hold tied properties** once they have been joined. -/
theorem tiedProperties (hs : s ∈ J.order) (hs' : s' ∈ J'.order) (hid : s.id = s'.id) : J.TiedProperties J' R s s' := by
  obtain ⟨earlier, later, hsplit⟩ := List.append_of_mem hs
  -- A base stands before the schema in the order, so the induction is on how many schemas do.
  induction hlength : earlier.length using Nat.strong_induction_on generalizing s s' earlier later with
  | _ n ih =>
    refine hall.tiedProperties_of_bases hs hs' hid fun t t' ht ht' hid' => ?_
    obtain ⟨before, between, rfl⟩ := List.append_of_mem (J.bases_first earlier s later hsplit t ht)
    rw [List.append_assoc, List.cons_append] at hsplit
    have hlt : before.length < n := by
      rw [← hlength, List.length_append, List.length_cons]
      omega
    exact ih before.length hlt (J.mem_of_extends hs ht) (J'.mem_of_extends hs' ht') hid' before _ hsplit rfl

/-- Counterparts have matching root objects once they have been joined. -/
theorem rootObject_after (hs : s ∈ J.order) (hs' : s' ∈ J'.order) (hid : s.id = s'.id) :
    (s.rootObject J.after).Matches (J.Tied J' R) (s'.rootObject J'.after) := by
  have hmatches := hall.rootObject J.rooted J'.rooted (J.mem s hs) (J'.mem s' hs') hid
  have hfiled := (J.hasRoot (J.mem s hs)).filed
  have hfiled' := (J'.hasRoot (J'.mem s' hs')).filed
  have hproperties := hall.tiedProperties hs hs' hid
  obtain ⟨b, c, hstep⟩ := J.exists_step hs
  obtain ⟨b', c', hstep'⟩ := J'.exists_step hs'
  obtain ⟨properties, heq⟩ := hstep.rootObject_eq
  obtain ⟨properties', heq'⟩ := hstep'.rootObject_eq
  refine ⟨?_, ?_, Registry.rel_of_get? hfiled.ascending hfiled'.ascending hproperties⟩
  · rw [heq, heq']
    exact hmatches.typeName_eq
  · rw [heq, heq']
    exact hmatches.required_eq

/-- **The graphs that two runs come to are isomorphic**, if the runs join counterparts. -/
theorem isomorphism_after (hleft : ∀ s ∈ J.order, ∃ s' ∈ J'.order, s.id = s'.id)
    (hright : ∀ s' ∈ J'.order, ∃ s ∈ J.order, s.id = s'.id) : Isomorphism J.after J'.after (J.Tied J' R) := by
  refine ⟨hall.present_tied, hall.unique_tied, fun {x x'} hx => ?_⟩
  cases hx with
  | property hq => exact .property hq.field_eq (.item hq)
  | @item q q' hq =>
    obtain ⟨scalar, hscalar, hscalar'⟩ := hq.held_eq
    rw [Graph.held] at hscalar hscalar'
    refine .item ?_
    rw [hscalar, hscalar']
    exact .scalar scalar
  | old hx =>
    obtain ⟨hpresent, hpresent'⟩ := hall.isomorphism.present hx
    cases hall.isomorphism.agree hx with
    | property hfield hheld =>
      refine .property ?_ ?_
      · rwa [J.framed.kept.property_eq _ hpresent, J'.framed.kept.property_eq _ hpresent']
      · rw [J.framed.kept.property_eq _ hpresent, J'.framed.kept.property_eq _ hpresent']
        exact .old hheld
    | @item i i' hitem =>
      -- The root objects of counterparts are paired with each other, and nothing else has changed.
      have hroots : ∀ s ∈ J.order, ∀ s' ∈ J'.order, s.id = s'.id →
          (i = s.rootItem J.before ↔ i' = s'.rootItem J'.before) := by
        intro s hs s' hs' hid
        have hroot := hall.isomorphism.held (hall.root s (J.mem s hs) s' (J'.mem s' hs') hid)
        simpa [Schema.rootItem] using hall.isomorphism.unique hx hroot
      by_cases hroot : ∃ s ∈ J.order, i = s.rootItem J.before
      · obtain ⟨s, hs, rfl⟩ := hroot
        obtain ⟨s', hs', hid⟩ := hleft s hs
        obtain rfl := (hroots s hs s' hs' hid).mp rfl
        have ho := (J.hasRoot (J.mem s hs)).object
        have ho' := (J'.hasRoot (J'.mem s' hs')).object
        rw [J.rootItem_eq (J.mem s hs), Graph.object?_eq_some_iff] at ho
        rw [J'.rootItem_eq (J'.mem s' hs'), Graph.object?_eq_some_iff] at ho'
        refine .item ?_
        rw [ho, ho']
        exact .object (hall.rootObject_after hs hs' hid)
      · have hne : ∀ s ∈ J.order, i ≠ s.rootItem J.before := fun s hs heq => hroot ⟨s, hs, heq⟩
        have hne' : ∀ s' ∈ J'.order, i' ≠ s'.rootItem J'.before := by
          intro s' hs' heq
          obtain ⟨s, hs, hid⟩ := hright s' hs'
          exact hne s hs ((hroots s hs s' hs' hid).mpr heq)
        refine Graph.Agree.mono (.item ?_) fun _ _ hy => .old hy
        rwa [J.item_eq hpresent hne, J'.item_eq hpresent' hne']

end Runs

/-- **One run comes through if the other does.** If the bases of a schema held different properties under one name, those
of its counterpart would, too. -/
theorem exists_foldlM_eq_ok {J : Joins} {schemas : List Schema} (hall : Counterparts J.all all' J.before g' R)
    (hrooted : Rooted g' all'.elements) (hmem : ∀ s' ∈ schemas, s' ∈ all'.elements) (hnodup : schemas.Nodup)
    (hfirst : ∀ earlier s' later, schemas = earlier ++ s' :: later → ∀ t', Extends all' s' t' → t' ∈ earlier)
    (hright : ∀ s' ∈ schemas, ∃ s ∈ J.order, s.id = s'.id) :
    ∃ h', schemas.foldlM (joinStep all') g' = .ok h' := by
  cases hjoins : schemas.foldlM (joinStep all') g' with
  | ok h' => exact ⟨h', rfl⟩
  | error e =>
    exfalso
    obtain ⟨earlier, s', later, b', rfl, hearlier, hstep⟩ := exists_of_foldlM_eq_error schemas g' hjoins
    -- The joins before the one that fails are a run of their own.
    set J' : Joins := { all := all', before := g', order := earlier, after := b', rooted := hrooted
                        mem := fun s hs => hmem s (by simp [hs])
                        nodup := hnodup.of_append_left
                        bases_first := fun front s back hsplit => hfirst front s (back ++ s' :: later) (by simp [hsplit])
                        joins := hearlier }
    have hboth : Counterparts J.all J'.all J.before J'.before R := hall
    have hs' : s' ∈ all'.elements := hmem s' (by simp)
    obtain ⟨s, hs, hid⟩ := hright s' (by simp)
    obtain ⟨b, c, hstep'⟩ := J.exists_step hs
    obtain ⟨name, -, t', u', p', q', ht', hu', hp', hq', hne⟩ := clash_of_joinStep_eq_error hs' J'.framed.rooted hstep
    have hbase : ∀ {t' p'}, Extends all' s' t' → t'.property? b' name = some p' → ∃ t p, Extends J.all s t ∧
        t.property? J.after name = some p ∧ J.Tied J' R (.property p) (.property p') := by
      intro t' p' ht' hp'
      obtain ⟨t, ht, hid'⟩ := hall.symm.exists_extends hs' (J.mem s hs) hid.symm ht'
      have hname := hboth.tiedProperties (J.mem_of_extends hs ht) (hfirst earlier s' later rfl t' ht') hid'.symm name
      change Option.Rel _ _ (t'.property? b' name) at hname
      rw [hp'] at hname
      obtain ⟨p, hp, htied⟩ := Graph.exists_of_rel_some hname
      exact ⟨t, p, ht, hp, htied⟩
    obtain ⟨t, p, ht, hp, htied⟩ := hbase ht' hp'
    obtain ⟨u, q, hu, hq, htied'⟩ := hbase hu' hq'
    obtain rfl := hstep'.settled.agree ht hu hp hq
    exact hne (Node.property.inj (hboth.eq_of_tied htied htied' rfl))

end Counterparts

end Schemata.Lineage
