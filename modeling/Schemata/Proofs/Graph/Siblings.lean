import Schemata.Proofs.Graph.Planting
import Schemata.Proofs.Graph.Renaming
import Schemata.Proofs.Sharing.Seats
import Schemata.Schema

/-!
# Sharing among the properties of an object

Subtrees are shared below an ancestor two steps up. In a tree of items and properties that leaves one kind of
redirection: a property of an object comes to hold the item of another property of that object. Two properties of one
object are never shared, because they have different names, and an array has one element only.

`exists_moves` says so of the plan for a graph below a root, provided that the tree below the root is one
(`Graph.Arboreal`) and that the digests tell its subtrees apart: the plan is a list of moves (`Graph.Move`), every
property is moved once at most, to one that has a lesser name and is not moved itself (`Graph.SiblingMoves`).
-/

open scoped List

namespace Schemata

open Sharing (Linked Layout Candidate Cell Redirection Seat)

/-- A scalar is told from an array and from an object by a comma. -/
theorem Scalar.comma_mem_fingerprint (s : Scalar) : ',' ∈ s.fingerprint.toList := by
  simp [fingerprint]

theorem Item.scalar_of_fingerprint_eq {x y : Item} {s : Scalar} (hxy : x.fingerprint = y.fingerprint)
    (hx : x = .scalar s) : ∃ t, y = .scalar t := by
  have hcomma : ',' ∈ y.fingerprint.toList := by
    rw [← hxy, hx]
    exact s.comma_mem_fingerprint
  cases y with
  | scalar t => exact ⟨t, rfl⟩
  | array e => exact absurd hcomma (by simp [Item.fingerprint])
  | object o => exact absurd hcomma (by simp [Item.fingerprint])

namespace Graph

variable {b g : Graph} {root : PropertyId} {i j : ItemId} {p q : PropertyId} {x y z : Node}

/-! ### Trees below a property -/

/-- What is below a property is a tree: links lead to lower ranks, and no two of them lead to one node. Objects file
their properties by name and name the objects below them. -/
structure Arboreal (g : Graph) (root : PropertyId) : Prop where
  ranked : g.Ranked (.property root)
  bounded : ∀ {p : PropertyId}, g.Leads (.property root) (.property p) → p.index < g.properties.size
  holder_unique : ∀ {x y z : Node}, g.Leads (.property root) x → g.Leads (.property root) y → g.Link x z →
    g.Link y z → x = y
  filed : ∀ {i : ItemId} {o : ObjectNode}, g.Leads (.property root) (.item i) → g.object? i = some o →
    o.properties.Filed g.propertyName
  named : ∀ {i : ItemId} {o : ObjectNode} {p : PropertyId}, g.Leads (.property root) (.item i) →
    g.object? i = some o → p ∈ o.properties.elements → g.NamedBelow o.typeName p

theorem Planted.new_of_leads (hg : Planted b g) (hx : New b g x) (hxy : g.Leads x y) : New b g y := by
  induction hxy with
  | refl => exact hx
  | tail _ hlink ih => exact hg.new_of_link ih hlink

/-- Below a new node, links lead to items that were planted earlier, or to scalars. -/
theorem Planted.ranked (hg : Planted b g) (hx : New b g x) : g.Ranked x := by
  have hnew : ∀ {y}, g.Leads x y → New b g y := hg.new_of_leads hx
  refine ⟨fun {i e} hi harray => ?_, fun {i p} hi hlink => ?_⟩
  · have hlt := hg.element_lt (hnew hi) harray
    have hrank : g.rank i = i.index + 1 := by rw [rank, harray]
    rw [hrank, rank]
    split <;> omega
  · obtain ⟨o, ho, hp⟩ := link_item_property_iff.mp hlink
    have hrank : g.rank i = i.index + 1 := by rw [rank, object?_eq_some_iff.mp ho]
    rw [hrank, rank]
    rcases hg.held_lt (hnew hi) ho hp with ⟨s, hs⟩ | hlt
    · rw [show g.item (g.property p).item = .scalar s from hs]
      exact Nat.succ_pos _
    · split <;> omega

/-- Forests are made of trees. -/
theorem Planted.arboreal (hg : Planted b g) (hroot : New b g (.property root)) : g.Arboreal root := by
  have hnew : ∀ {x}, g.Leads (.property root) x → New b g x := hg.new_of_leads hroot
  exact ⟨hg.ranked hroot, fun hp => (hnew hp).2, fun hx hy => hg.holder_unique (hnew hx) (hnew hy),
    fun hi => hg.filed (hnew hi), fun hi => hg.named (hnew hi)⟩

/-! ### Properties that are filed by name -/

section Filed

variable (hfiled : ∀ {i : ItemId} {o : ObjectNode}, g.Leads (.property root) (.item i) → g.object? i = some o →
  o.properties.Filed g.propertyName)

include hfiled

theorem nodup_children (hx : g.Leads (.property root) x) : (g.children x).Nodup := by
  cases x with
  | property p => exact List.nodup_singleton _
  | item i =>
    rw [children_item]
    cases hitem : g.item i with
    | scalar s => exact List.nodup_nil
    | array e => exact List.nodup_singleton _
    | object o =>
      refine List.Nodup.map (fun _ _ h => Node.property.inj h) ?_
      exact (hfiled hx (object?_eq_some_iff.mpr hitem)).nodup_elements

/-- The children of a node have different fingerprints. -/
theorem eq_of_fingerprint_eq (hx : g.Leads (.property root) x) (hy : g.Link x y) (hz : g.Link x z)
    (hyz : g.fingerprint y = g.fingerprint z) : y = z := by
  cases x with
  | property p => exact (link_property_iff.mp hy).trans (link_property_iff.mp hz).symm
  | item i =>
    rcases link_item_iff.mp hy with ⟨e, he, rfl⟩ | ⟨o, ho, p, hp, rfl⟩
    · rcases link_item_iff.mp hz with ⟨e', he', rfl⟩ | ⟨o, ho, -⟩
      · rw [Item.array.inj (he.symm.trans he')]
      · exact nomatch he.symm.trans ho
    · rcases link_item_iff.mp hz with ⟨e', he', -⟩ | ⟨o', ho', q, hq, rfl⟩
      · exact nomatch ho.symm.trans he'
      · obtain rfl := Item.object.inj (ho.symm.trans ho')
        rw [(hfiled hx (object?_eq_some_iff.mpr ho)).eq_of_name_eq hp hq hyz]

/-- Two candidates of one group are the items of two properties of an object. -/
theorem exists_siblings (hdiscerning : linked.Discerning g (.property root)) {c d : Candidate}
    (C : Seat (linked.occurrences g (.property root)) c) (D : Seat (linked.occurrences g (.property root)) d)
    (hdigest : d.digest = c.digest) (hancestor : d.ancestor = c.ancestor) (hne : d.index ≠ c.index) :
    ∃ i o p q, C.ancestor.node = .item i ∧ g.object? i = some o ∧ g.Leads (.property root) (.item i) ∧
      C.parent.node = .property p ∧ p ∈ o.properties.elements ∧ C.cell.node = .item (g.property p).item ∧
      D.parent.node = .property q ∧ q ∈ o.properties.elements ∧ D.cell.node = .item (g.property q).item ∧
      linked.pattern g (.item (g.property p).item) = linked.pattern g (.item (g.property q).item) ∧
      C.position ≠ D.position := by
  have hlayout := linked.layout_occurrences g (.property root)
  have hpattern : linked.pattern g C.cell.node = linked.pattern g D.cell.node := by
    refine hdiscerning C.cell ?_ D.cell ?_ ?_
    · exact Array.mem_of_getElem? C.cell_eq
    · exact Array.mem_of_getElem? D.cell_eq
    · rw [C.digest_eq, D.digest_eq, hdigest]
  have hsame : D.ancestor = C.ancestor := by
    have h := D.ancestor_eq
    rw [hancestor, C.ancestor_eq] at h
    exact (Option.some.inj h).symm
  have hcell : g.Link C.parent.node C.cell.node := C.cell_mem_children hlayout
  have hcell' : g.Link D.parent.node D.cell.node := D.cell_mem_children hlayout
  have hparent : g.Link C.ancestor.node C.parent.node := C.parent_mem_children hlayout
  have hparent' : g.Link C.ancestor.node D.parent.node := hsame ▸ D.parent_mem_children hlayout
  have hget : ∀ {r : Nat} {cell : Cell Node}, (linked.occurrences g (.property root))[r]? = some cell →
      (linked.occurrences g (.property root)).toList[r]? = some cell := fun h => by rwa [Array.getElem?_toList]
  -- Children of one occurrence with equal fingerprints would be one, at one position.
  have hposition : C.position ≠ D.position := by
    intro heq
    have hparents : D.parent = C.parent := by
      have h := D.parent_eq
      rw [← heq, C.parent_eq] at h
      exact (Option.some.inj h).symm
    rw [hparents] at hcell'
    have hnodes := eq_of_fingerprint_eq hfiled (C.reaches_parent hlayout) hcell hcell'
      (Linked.fingerprint_eq_of_pattern_eq hpattern)
    exact hne (hlayout.position_eq_of_parent_eq (hget D.cell_eq) (hget C.cell_eq) (hget C.parent_eq)
      (heq ▸ D.cell_parent) C.cell_parent (nodup_children hfiled (C.reaches_parent hlayout)) hnodes.symm)
  have hparents : C.parent.node ≠ D.parent.node := fun heq =>
    hposition (hlayout.position_eq_of_parent_eq (hget C.parent_eq) (hget D.parent_eq) (hget C.ancestor_eq)
      C.parent_parent (hancestor ▸ D.parent_parent) (nodup_children hfiled (C.reaches_ancestor hlayout)) heq)
  have hreach : g.Leads (.property root) C.ancestor.node := C.reaches_ancestor hlayout
  cases hancestorNode : C.ancestor.node with
  | property r =>
    rw [hancestorNode] at hparent hparent'
    exact absurd ((link_property_iff.mp hparent).trans (link_property_iff.mp hparent').symm) hparents
  | item i =>
    rw [hancestorNode] at hparent hparent' hreach
    rcases link_item_iff.mp hparent with ⟨e, he, heq⟩ | ⟨o, ho, p, hp, heq⟩
    · rcases link_item_iff.mp hparent' with ⟨e', he', heq'⟩ | ⟨o, ho, -⟩
      · rw [Item.array.inj (he.symm.trans he')] at heq
        exact absurd (heq.trans heq'.symm) hparents
      · exact nomatch he.symm.trans ho
    · rcases link_item_iff.mp hparent' with ⟨e', he', -⟩ | ⟨o', ho', q, hq, heq'⟩
      · exact nomatch ho.symm.trans he'
      · obtain rfl := Item.object.inj (ho.symm.trans ho')
        rw [heq, link_property_iff] at hcell
        rw [heq', link_property_iff] at hcell'
        rw [hcell, hcell'] at hpattern
        exact ⟨i, o, p, q, rfl, object?_eq_some_iff.mpr ho, hreach, heq, hp, hcell, heq', hq, hcell', hpattern,
          hposition⟩

end Filed

/-- A node below the root occurs at one position of the tree. -/
theorem Arboreal.position_unique (hg : g.Arboreal root) {r s : Nat} {a b : Cell Node}
    (ha : (linked.occurrences g (.property root))[r]? = some a)
    (hb : (linked.occurrences g (.property root))[s]? = some b) (hab : a.node = b.node) : r = s := by
  rw [← Array.getElem?_toList] at ha hb
  refine (linked.layout_occurrences g (.property root)).position_unique hg.holder_unique (nodup_children hg.filed)
    (fun {x} hx hlink => ?_) r ha hb hab
  exact (hg.ranked.of_leads hx).not_leads hlink hx

/-! ### Moves -/

/-- A property comes to hold the item of another one. -/
structure Move where
  /-- The property that is moved. -/
  holder : PropertyId
  /-- The property whose item it comes to hold. -/
  source : PropertyId

/-- The redirection that a move is in a graph where nothing is moved yet. -/
def Move.redirection (g : Graph) (m : Move) : Redirection Node :=
  ⟨.property m.holder, .item (g.property m.source).item, .item (g.property m.holder).item⟩

/-- Moves between the properties of objects below a root: each property is moved once at most, to one of lesser name
that is not moved itself, and the items of both have equal fingerprints. -/
structure SiblingMoves (g : Graph) (root : PropertyId) (moves : List Move) : Prop where
  siblings : ∀ m ∈ moves, ∃ i o, g.Leads (.property root) (.item i) ∧ g.object? i = some o ∧
    m.holder ∈ o.properties.elements ∧ m.source ∈ o.properties.elements
  name_lt : ∀ m ∈ moves, g.propertyName m.source < g.propertyName m.holder
  fingerprint_eq : ∀ m ∈ moves, (g.held m.holder).fingerprint = (g.held m.source).fingerprint
  nodup_holders : (moves.map Move.holder).Nodup
  source_ne_holder : ∀ m ∈ moves, ∀ m' ∈ moves, m.source ≠ m'.holder

/-- The occurrences below a root. -/
abbrev cellsBelow (g : Graph) (root : PropertyId) : Array (Cell Node) :=
  linked.occurrences g (.property root)

/-- The candidates for sharing below a root. -/
abbrev candidatesBelow (g : Graph) (root : PropertyId) : List Candidate :=
  Sharing.candidates (g.cellsBelow root) Schema.sharingLevel

open Sharing (leader leader_mem leader_leader mem_of_leader_ne redirection? redirectionsFrom nodeAt)

/-- A candidate that is not a leader is the item of the property that a move moves, and its leader the item of the
other property. -/
structure Move.Serves (g : Graph) (root : PropertyId) (c : Candidate) (m : Move) : Prop where
  mem : c ∈ g.candidatesBelow root
  leader_ne : leader (g.candidatesBelow root) c ≠ c
  holder_eq : ∃ C : Seat (g.cellsBelow root) c,
    C.parent.node = .property m.holder ∧ C.cell.node = .item (g.property m.holder).item
  source_eq : ∃ D : Seat (g.cellsBelow root) (leader (g.candidatesBelow root) c),
    D.parent.node = .property m.source ∧ D.cell.node = .item (g.property m.source).item
  siblings : ∃ i o, g.Leads (.property root) (.item i) ∧ g.object? i = some o ∧
    m.holder ∈ o.properties.elements ∧ m.source ∈ o.properties.elements
  name_lt : g.propertyName m.source < g.propertyName m.holder
  pattern_eq : linked.pattern g (.item (g.property m.holder).item) = linked.pattern g (.item (g.property m.source).item)

section Plan

variable (hfiled : ∀ {i : ItemId} {o : ObjectNode}, g.Leads (.property root) (.item i) → g.object? i = some o →
    o.properties.Filed g.propertyName)
  (hdiscerning : linked.Discerning g (.property root)) {c d : Candidate}

include hfiled hdiscerning

/-- Every candidate that is not a leader has a move. -/
theorem exists_serves (hc : c ∈ g.candidatesBelow root) (hleader : leader (g.candidatesBelow root) c ≠ c) :
    ∃ m, Move.Serves g root c m := by
  have hlayout := linked.layout_occurrences g (.property root)
  obtain ⟨hmem, hgroup⟩ := mem_of_leader_ne hleader
  obtain ⟨hdigest, hancestor⟩ := Candidate.sameGroup_iff.mp hgroup
  have hlt := Sharing.leader_index_lt (Sharing.pairwise_candidates _ _) (Sharing.nodup_index_candidates _ _) hc hleader
  obtain ⟨C⟩ := Sharing.nonempty_seat hlayout hc
  obtain ⟨D⟩ := Sharing.nonempty_seat hlayout hmem
  obtain ⟨i, o, p, q, hi, ho, hreach, hp, hpo, hpc, hq, hqo, hqc, hpattern, hposition⟩ :=
    exists_siblings hfiled hdiscerning C D hdigest hancestor hlt.ne
  refine ⟨⟨p, q⟩, hc, hleader, ⟨C, hp, hpc⟩, ⟨D, hq, hqc⟩, ⟨i, o, hreach, ho, hpo, hqo⟩, ?_, hpattern⟩
  -- The leader comes first, so its property does, and properties stand by ascending names.
  have hget : ∀ {r : Nat} {cell : Cell Node}, (g.cellsBelow root)[r]? = some cell →
      (g.cellsBelow root).toList[r]? = some cell := fun h => by rwa [Array.getElem?_toList]
  have hparents : D.parent.parent = some c.ancestor := hancestor ▸ D.parent_parent
  have hfirst : D.position < C.position :=
    hlayout.parent_lt_of_lt hlt (hget D.cell_eq) (hget C.cell_eq) (hget D.parent_eq) D.cell_parent C.cell_parent
      hparents (hget C.parent_eq) C.parent_parent hposition.symm
  have hpair := hlayout.children_sublist D.position C.position c.ancestor D.parent C.parent C.ancestor hfirst
    (hget D.parent_eq) (hget C.parent_eq) (hget C.ancestor_eq) (by rw [Nat.zero_add]; exact hparents)
    (by rw [Nat.zero_add]; exact C.parent_parent)
  have hchildren : linked.children g C.ancestor.node = o.properties.elements.map .property := by
    rw [hi]
    exact (children_item g i).trans (by rw [object?_eq_some_iff.mp ho]; rfl)
  rw [hp, hq, hchildren] at hpair
  have hnames : [g.propertyName q, g.propertyName p] <+ o.properties.elements.map g.propertyName := by
    have h := hpair.map g.fingerprint
    rwa [List.map_map] at h
  simpa using (hfiled hreach ho).names_ascending.sublist hnames

/-- A candidate that is a property leads its group. -/
theorem leader_eq_of_property (hd : d ∈ g.candidatesBelow root) {cell : Cell Node}
    (hcell : (g.cellsBelow root)[d.index]? = some cell) (hp : cell.node = .property p) :
    leader (g.candidatesBelow root) d = d := by
  by_contra hleader
  obtain ⟨m, hserves⟩ := exists_serves hfiled hdiscerning hd hleader
  obtain ⟨C, -, hnode⟩ := hserves.holder_eq
  obtain rfl := Option.some.inj (C.cell_eq.symm.trans hcell)
  exact nomatch hp.symm.trans hnode

/-- The redirection of a candidate is its move. -/
theorem redirection?_eq {m : Move} (hserves : m.Serves g root c) {done : List Candidate}
    (hdone : ∀ d ∈ done, d ∈ g.candidatesBelow root) :
    redirection? (g.cellsBelow root) (g.candidatesBelow root) done c = some (m.redirection g) := by
  obtain ⟨C, hholder, hcell⟩ := hserves.holder_eq
  obtain ⟨D, -, hsource⟩ := hserves.source_eq
  have hparent : (g.cellsBelow root)[c.index]?.bind Cell.parent = some C.position := by
    rw [C.cell_eq, Option.bind_some, C.cell_parent]
  have hnode : ∀ {r : Nat} {cell : Cell Node}, (g.cellsBelow root)[r]? = some cell →
      nodeAt (g.cellsBelow root) r = some cell.node := fun h => by rw [nodeAt, h, Option.map_some]
  have hstanding : Sharing.standing (g.cellsBelow root) (g.candidatesBelow root) done C.position =
      some (.property m.holder) := by
    rw [Sharing.standing_of_forall_leader, hnode C.parent_eq, hholder]
    intro d hd hindex
    exact leader_eq_of_property hfiled hdiscerning (hdone d hd) (hindex ▸ C.parent_eq) hholder
  rw [redirection?, if_neg hserves.leader_ne, hparent]
  simp only [Option.bind_eq_bind, Option.bind_some, hstanding, hnode C.cell_eq, hnode D.cell_eq, hcell, hsource]
  rfl

/-- The redirections below a root are the moves of the candidates that are not leaders. -/
theorem mem_plan_iff {r : Redirection Node} :
    r ∈ linked.plan g (.property root) Schema.sharingLevel ↔
      ∃ c m, Move.Serves g root c m ∧ r = m.redirection g := by
  have hplan : linked.plan g (.property root) Schema.sharingLevel =
      redirectionsFrom (g.cellsBelow root) (g.candidatesBelow root) [] (g.candidatesBelow root) :=
    linked.plan_eq_redirectionsFrom g (.property root)
  have hmem : ∀ {before : List Candidate} {c : Candidate} {after : List Candidate},
      g.candidatesBelow root = before ++ c :: after → c ∈ g.candidatesBelow root ∧
        ∀ d ∈ [] ++ before, d ∈ g.candidatesBelow root := fun hsplit => by
    rw [hsplit]
    exact ⟨by simp, fun d hd => List.mem_append_left _ hd⟩
  rw [hplan, Sharing.mem_redirectionsFrom_iff]
  constructor
  · rintro ⟨before, c, after, hsplit, hr⟩
    have hleader : leader (g.candidatesBelow root) c ≠ c := fun heq => by
      rw [redirection?, if_pos heq] at hr
      cases hr
    obtain ⟨hc, hbefore⟩ := hmem hsplit
    obtain ⟨m, hserves⟩ := exists_serves hfiled hdiscerning hc hleader
    exact ⟨c, m, hserves, Option.some.inj (hr.symm.trans (redirection?_eq hfiled hdiscerning hserves hbefore))⟩
  · rintro ⟨c, m, hserves, rfl⟩
    obtain ⟨before, after, hsplit⟩ := List.append_of_mem hserves.mem
    exact ⟨before, c, after, hsplit, redirection?_eq hfiled hdiscerning hserves (hmem hsplit).2⟩

end Plan

section Moves

variable (hg : g.Arboreal root) (hdiscerning : linked.Discerning g (.property root)) {c d : Candidate}

include hg hdiscerning

omit hdiscerning in
/-- Candidates whose properties are one are one. -/
theorem Arboreal.eq_of_parent_eq (hc : c ∈ g.candidatesBelow root) (hd : d ∈ g.candidatesBelow root)
    (C : Seat (g.cellsBelow root) c) (D : Seat (g.cellsBelow root) d) (hC : C.parent.node = .property p)
    (hD : D.parent.node = .property p) : c = d := by
  have hlayout := linked.layout_occurrences g (.property root)
  have hcell : g.Link C.parent.node C.cell.node := C.cell_mem_children hlayout
  have hcell' : g.Link D.parent.node D.cell.node := D.cell_mem_children hlayout
  rw [hC, link_property_iff] at hcell
  rw [hD, link_property_iff] at hcell'
  have hindex := hg.position_unique C.cell_eq D.cell_eq (hcell.trans hcell'.symm)
  exact List.inj_on_of_nodup_map (Sharing.nodup_index_candidates _ _) hc hd hindex

/-- The redirections of candidates are their moves, one for each candidate that is not a leader. -/
theorem Arboreal.exists_moves_from (todo : List Candidate) : ∀ done : List Candidate,
    (∀ d ∈ done ++ todo, d ∈ g.candidatesBelow root) → (todo.map Candidate.index).Nodup →
    ∃ moves : List Move,
      redirectionsFrom (g.cellsBelow root) (g.candidatesBelow root) done todo = moves.map (Move.redirection g) ∧
        (∀ m ∈ moves, ∃ c ∈ todo, m.Serves g root c) ∧ (moves.map Move.holder).Nodup := by
  induction todo with
  | nil =>
    intro done _ _
    exact ⟨[], rfl, by simp, List.nodup_nil⟩
  | cons c todo ih =>
    intro done hmem hnodup
    rw [List.map_cons, List.nodup_cons] at hnodup
    have hc : c ∈ g.candidatesBelow root := hmem c (by simp)
    obtain ⟨moves, hmoves, hserve, hholders⟩ := ih (done ++ [c]) (by simpa using hmem) hnodup.2
    have hlater : ∀ m ∈ moves, ∃ d ∈ c :: todo, m.Serves g root d := fun m hm => by
      obtain ⟨d, hd, hserves⟩ := hserve m hm
      exact ⟨d, List.mem_cons_of_mem _ hd, hserves⟩
    rw [redirectionsFrom, hmoves]
    by_cases hleader : leader (g.candidatesBelow root) c = c
    · -- A leader stays where it is.
      exact ⟨moves, by rw [redirection?, if_pos hleader]; rfl, hlater, hholders⟩
    · obtain ⟨m, hserves⟩ := exists_serves hg.filed hdiscerning hc hleader
      have hdone : ∀ d ∈ done, d ∈ g.candidatesBelow root := fun d hd => hmem d (by simp [hd])
      have hredirection := redirection?_eq hg.filed hdiscerning hserves hdone
      refine ⟨m :: moves, by rw [hredirection]; rfl, ?_, ?_⟩
      · rintro m' (_ | ⟨_, hm'⟩)
        · exact ⟨c, by simp, hserves⟩
        · exact hlater m' hm'
      · -- The holder of a move is the parent of its candidate, and no two candidates have one parent.
        rw [List.map_cons, List.nodup_cons]
        refine ⟨fun hmem' => ?_, hholders⟩
        obtain ⟨m', hm', heq⟩ := List.mem_map.mp hmem'
        obtain ⟨d, hd, hserves'⟩ := hserve m' hm'
        obtain ⟨C, hC, -⟩ := hserves.holder_eq
        obtain ⟨D, hD, -⟩ := hserves'.holder_eq
        obtain rfl := hg.eq_of_parent_eq hc hserves'.mem C D hC (heq ▸ hD)
        exact hnodup.1 (List.mem_map_of_mem hd)

/-- **The plan below a root is a list of moves** between the properties of objects. -/
theorem Arboreal.exists_moves :
    ∃ moves, SiblingMoves g root moves ∧
      linked.plan g (.property root) Schema.sharingLevel = moves.map (Move.redirection g) := by
  have hplan : linked.plan g (.property root) Schema.sharingLevel =
      redirectionsFrom (g.cellsBelow root) (g.candidatesBelow root) [] (g.candidatesBelow root) :=
    linked.plan_eq_redirectionsFrom g (.property root)
  obtain ⟨moves, hmoves, hserve, hholders⟩ :=
    hg.exists_moves_from hdiscerning (g.candidatesBelow root) [] (by simp) (Sharing.nodup_index_candidates _ _)
  refine ⟨moves, ⟨fun m hm => ?_, fun m hm => ?_, fun m hm => ?_, hholders, fun m hm m' hm' heq => ?_⟩,
    hplan.trans hmoves⟩
  · obtain ⟨c, -, hserves⟩ := hserve m hm
    exact hserves.siblings
  · obtain ⟨c, -, hserves⟩ := hserve m hm
    exact hserves.name_lt
  · obtain ⟨c, -, hserves⟩ := hserve m hm
    exact Linked.fingerprint_eq_of_pattern_eq hserves.pattern_eq
  · -- A property that is moved has an item that is no leader.
    obtain ⟨c, -, hserves⟩ := hserve m hm
    obtain ⟨d, -, hserves'⟩ := hserve m' hm'
    obtain ⟨L, hL, -⟩ := hserves.source_eq
    obtain ⟨D, hD, -⟩ := hserves'.holder_eq
    have hsame := hg.eq_of_parent_eq (leader_mem hserves.mem) hserves'.mem L D hL (heq ▸ hD)
    exact hserves'.leader_ne (hsame ▸ leader_leader _ _)

end Moves

end Graph

end Schemata
