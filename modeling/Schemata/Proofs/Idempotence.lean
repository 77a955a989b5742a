import Schemata.Proofs.Collisions
import Schemata.Proofs.Graph.Paths
import Schemata.Proofs.Sharing.Digests

/-!
# Sharing twice

Once the equal subtrees below a root are shared, nothing is left to share: two properties of an object that hold equal
subtrees hold one item (`Graph.Condensed`). The tree still has equal subtrees, and they are found again. But the second
time each redirection asks a property to hold the item that it holds. The rename that follows finds the word `common`
where the mark of the property stands, and ends at once (`Spelled.redirect_eq_self`). So a second run leaves the graph
as it is (`condensed_and_dedup_dedup_eq_self`).

As for type names, the digests have to tell the subtrees apart, and the names have to fit 64-bit positions while they
are changed.
-/

namespace Schemata.Graph

open Sharing (Candidate Seat leader leader_congr)

variable {b g h : Graph} {root : PropertyId} {moves : List Move} {m : Move} {i : ItemId} {o : ObjectNode}
  {p q : PropertyId}

/-- Nothing is left to share below a root: properties of one object that hold equal subtrees hold one item. -/
def Condensed (g : Graph) (root : PropertyId) : Prop :=
  ∀ i o p q, g.Leads (.property root) (.item i) → g.object? i = some o → p ∈ o.properties.elements →
    q ∈ o.properties.elements →
    linked.pattern g (.item (g.property p).item) = linked.pattern g (.item (g.property q).item) →
    (g.property p).item = (g.property q).item

/-! ### No equal subtree is passed over -/

section Complete

variable (hg : g.Arboreal root) (hdiscerning : linked.Discerning g (.property root))
  (hplan : linked.plan g (.property root) Schema.sharingLevel = moves.map (Move.redirection g))

include hg hdiscerning hplan

/-- The property of a candidate that is not a leader is moved. -/
theorem Arboreal.exists_move_of_leader_ne {c : Candidate} (hc : c ∈ g.candidatesBelow root)
    (hleader : leader (g.candidatesBelow root) c ≠ c) (C : Seat (g.cellsBelow root) c)
    (hp : C.parent.node = .property p) : ∃ m ∈ moves, m.holder = p := by
  obtain ⟨m, hserves⟩ := exists_serves hg.filed hdiscerning hc hleader
  have hmem := (mem_plan_iff hg.filed hdiscerning).mpr ⟨c, m, hserves, rfl⟩
  rw [hplan] at hmem
  obtain ⟨m', hm', heq⟩ := List.mem_map.mp hmem
  obtain ⟨C', hholder, -⟩ := hserves.holder_eq
  refine ⟨m', hm', Node.property.inj ?_⟩
  calc Node.property m'.holder = .property m.holder := congrArg Sharing.Redirection.holder heq
    _ = C'.parent.node := hholder.symm
    _ = C.parent.node := by rw [C'.parent_eq_of_index_eq C rfl]
    _ = .property p := hp

/-- Of two properties of an object that hold equal subtrees one is moved. -/
theorem Arboreal.exists_move_of_pattern_eq (hsound : g.Sound) (hroot : g.Present (.property root))
    (hi : g.Leads (.property root) (.item i)) (ho : g.object? i = some o) (hp : p ∈ o.properties.elements)
    (hq : q ∈ o.properties.elements) (hne : p ≠ q)
    (hpq : linked.pattern g (.item (g.property p).item) = linked.pattern g (.item (g.property q).item)) :
    ∃ m ∈ moves, m.holder = p ∨ m.holder = q := by
  obtain ⟨rank, hgraded⟩ := hsound.exists_graded
  have hmem : .property root ∈ { x | g.Present x } := hroot
  obtain ⟨ancestor, hseats⟩ := Sharing.Linked.exists_candidates (L := linked) hgraded hmem hi
  have hseat : ∀ r ∈ o.properties.elements, _ := fun r hr =>
    hseats (.property r) (link_item_property_iff.mpr ⟨o, ho, hr⟩) (.item (g.property r).item) (link_property_iff.mpr rfl)
  obtain ⟨c, hc, hcdigest, hcancestor, C, hC, -⟩ := hseat p hp
  obtain ⟨d, hd, hddigest, hdancestor, D, hD, -⟩ := hseat q hq
  have hgroup : c.sameGroup d = true := by
    refine Candidate.sameGroup_iff.mpr ⟨?_, hcancestor.trans hdancestor.symm⟩
    rw [hcdigest, hddigest, Sharing.Linked.digest_eq_digest_pattern, Sharing.Linked.digest_eq_digest_pattern, hpq]
  -- Both have one leader, which cannot be both of them.
  by_cases hleader : leader (g.candidatesBelow root) c = c
  · have hleader' : leader (g.candidatesBelow root) d ≠ d := by
      intro heq
      obtain rfl : c = d := hleader.symm.trans ((leader_congr hc hgroup).trans heq)
      refine hne (Node.property.inj (hC.symm.trans ?_))
      rw [C.parent_eq_of_index_eq D rfl, hD]
    obtain ⟨m, hm, heq⟩ := hg.exists_move_of_leader_ne hdiscerning hplan hd hleader' D hD
    exact ⟨m, hm, .inr heq⟩
  · obtain ⟨m, hm, heq⟩ := hg.exists_move_of_leader_ne hdiscerning hplan hc hleader C hC
    exact ⟨m, hm, .inl heq⟩

/-- **After sharing nothing is left to share.** -/
theorem Arboreal.condensed_dedup (hsound : g.Sound) (hroot : g.Present (.property root))
    (hmoves : SiblingMoves g root moves) (hmoved : Moved g moves (g.dedup root Schema.sharingLevel)) :
    (g.dedup root Schema.sharingLevel).Condensed root := by
  intro i o p q hi ho hp hq hpq
  obtain ⟨o, ho', hproperties, -⟩ := hmoved.exists_object? ho
  have hi' := hmoved.leads_of_leads hmoves .refl hi
  rw [← hproperties] at hp hq
  have hleadp := hmoves.lead_mem hg hi' ho' hp
  have hleadq := hmoves.lead_mem hg hi' ho' hq
  have hpresent : ∀ {r}, r ∈ o.properties.elements → g.Present (.item (g.property r).item) := fun hr =>
    hsound.present_of_leads hroot ((hi'.tail (link_item_property_iff.mpr ⟨o, ho', hr⟩)).tail
      (link_property_iff.mpr rfl))
  rw [hmoved.held_eq, hmoved.held_eq, hsound.pattern_dedup hroot hdiscerning (hpresent hleadp),
    hsound.pattern_dedup hroot hdiscerning (hpresent hleadq)] at hpq
  rw [hmoved.held_eq, hmoved.held_eq]
  -- What leads a property is not moved itself.
  by_contra hne
  obtain ⟨m, hm, heq | heq⟩ := hg.exists_move_of_pattern_eq hdiscerning hplan hsound hroot hi' ho' hleadp hleadq
    (fun heq => hne (by rw [heq])) hpq
  · exact hmoves.lead_ne_holder hm p heq.symm
  · exact hmoves.lead_ne_holder hm q heq.symm

end Complete

/-- The digests go on telling the trees below the root apart. -/
theorem Sound.discerning_dedup (hsound : g.Sound) (hroot : g.Present (.property root))
    (hdiscerning : linked.Discerning g (.property root)) (hmoves : SiblingMoves g root moves)
    (hmoved : Moved g moves (g.dedup root Schema.sharingLevel)) :
    linked.Discerning (g.dedup root Schema.sharingLevel) (.property root) := by
  obtain ⟨rank, hgraded⟩ := hsound.exists_graded
  obtain ⟨rank', hgraded'⟩ := (hsound.dedup hroot).exists_graded
  simp only [present_dedup_iff] at hgraded'
  exact (hsound.interchanged_share hroot _ hdiscerning).toAlike.discerning hgraded hgraded' hroot
    (hmoved.leads_of_leads hmoves .refl) hdiscerning

/-! ### Redirections that change nothing -/

/-- A property that holds an object after some moves held none but objects and arrays before. -/
theorem Moved.not_scalar_of_encloses (hmoved : Moved g moves h) (hmoves : SiblingMoves g root moves) {k : ItemId}
    {c : ObjectNode} (henc : h.Encloses (h.property p).item k) (hc : h.object? k = some c) (s : Scalar) :
    g.held p ≠ .scalar s := by
  intro hs
  obtain ⟨t, ht⟩ := Item.scalar_of_fingerprint_eq (hmoves.fingerprint_lead p) hs
  rw [held, ← hmoved.held_eq, ← hmoved.scalar_iff] at ht
  cases henc with
  | refl => cases ht.symm.trans (object?_eq_some_iff.mp hc)
  | array harray _ => cases ht.symm.trans harray

/-- To ask a property to hold what it shares with another one changes nothing: neither its item, nor the names below,
nor its mark. -/
theorem Spelled.redirect_eq_self (hspelled : Spelled g root moves h) (hg : g.Arboreal root)
    (hmoves : SiblingMoves g root moves) (hi : g.Leads (.property root) (.item i)) (ho : g.object? i = some o)
    (hholder : m.holder ∈ o.properties.elements) (hsource : m.source ∈ o.properties.elements)
    (hne : m.source ≠ m.holder) (hitem : (h.property m.holder).item = (h.property m.source).item) :
    h.redirect (m.redirection h) = h := by
  have hreach : ∀ {r}, r ∈ o.properties.elements → g.Leads (.property root) (.property r) :=
    fun hr => hi.tail (link_item_property_iff.mpr ⟨o, ho, hr⟩)
  have hlead : lead moves m.source = lead moves m.holder :=
    hspelled.moved.lead_eq_of_encloses hg hmoves (hreach hsource) (hreach hholder) (.refl _) (hitem ▸ .refl _)
  have hsegment : Mark.readsCommon (h.segment o m.holder) := by
    rw [segment_of_shared hspelled.moved hg hmoves hi ho hholder hsource hne hlead]
    exact Mark.readsCommon_shared _
  have hrename : h.rename (h.property m.holder).item (h.property m.holder).mark = (h, (h.property m.holder).mark) := by
    refine renameWithin_eq_self _ fun k c henc hc => ?_
    have hmark := hspelled.mark_start hi ho hholder (hspelled.moved.not_scalar_of_encloses hmoves henc hc)
    rw [(hspelled.typeName_eq hi ho hholder henc hc).1]
    exact Mark.rename?_eq_none hmark hsegment
  have hset : h.setProperty m.holder { h.property m.holder with item := (h.property m.holder).item } = h :=
    setProperty_property h m.holder
  rw [Move.redirection, redirect, replaceItem, ← hitem]
  simp only [if_true, hset, hrename]

/-- **Once equal subtrees are shared, nothing is left to share, and to share them again changes nothing**: no node and no
name, no mark and no set of properties. -/
theorem condensed_and_dedup_dedup_eq_self {ctx : Shape.Context} {name : String} {data : Entries} (hb : b.Sound)
    (hparse : b.parseProperty ctx name data = .ok (g, root)) (hname : name ≠ "")
    (hdiscerning : linked.Discerning g (.property root)) (hfit : g.FitsWhileSharing root) :
    (g.dedup root Schema.sharingLevel).Condensed root ∧
      (g.dedup root Schema.sharingLevel).dedup root Schema.sharingLevel = g.dedup root Schema.sharingLevel := by
  obtain ⟨hplanted, hloose, htop⟩ := Schema.planted_parseProperty (Planted.refl b) hparse
  have hg : g.Arboreal root := hplanted.arboreal hloose.new
  have hsound : g.Sound := hplanted.sound hb
  have hroot : g.Present (.property root) := hloose.new.present
  have hproper : g.Proper root := hg.proper fun k c henc hc => by
    rw [htop k c henc hc, Naming.join_eq_append]
    exact fun hempty => hname (String.append_eq_empty_iff.mp hempty).2
  obtain ⟨moves, hmoves, hplan⟩ := hg.exists_moves hdiscerning
  have hspelled := spelled_dedup hg hproper hfit hmoves hplan
  have hcondensed := hg.condensed_dedup hdiscerning hplan hsound hroot hmoves hspelled.moved
  have hdiscerning' := hsound.discerning_dedup hroot hdiscerning hmoves hspelled.moved
  refine ⟨hcondensed, List.foldlRecOn (motive := fun k : Graph => k = g.dedup root Schema.sharingLevel) _ _ rfl ?_⟩
  rintro _ rfl r hr
  obtain ⟨c, m, hserves, rfl⟩ := (mem_plan_iff (hspelled.filed hmoves hg) hdiscerning').mp hr
  obtain ⟨i, o, hi, ho, hholder, hsource⟩ := hserves.siblings
  have hitem := hcondensed i o m.holder m.source hi ho hholder hsource hserves.pattern_eq
  obtain ⟨o', ho', hproperties, -⟩ := hspelled.moved.exists_object? ho
  refine hspelled.redirect_eq_self hg hmoves (hspelled.leads_of_leads hmoves hi) ho' (hproperties ▸ hholder)
    (hproperties ▸ hsource) (fun heq => ?_) hitem
  exact absurd (heq ▸ hserves.name_lt) (lt_irrefl _)

/-- The two pairs of equal properties of the contract are shared by one run, and a second one changes nothing. -/
theorem contract_shared_twice :
    (contractRead.1.dedup contractRead.2 Schema.sharingLevel).Condensed contractRead.2 ∧
      (contractRead.1.dedup contractRead.2 Schema.sharingLevel).dedup contractRead.2 Schema.sharingLevel =
        contractRead.1.dedup contractRead.2 Schema.sharingLevel ∧
      contractRead.1.dedup contractRead.2 Schema.sharingLevel ≠ contractRead.1 := by
  have hfit : contractRead.1.FitsWhileSharing contractRead.2 := by
    intro steps hsteps
    rw [plan_contract, ← List.mem_inits] at hsteps
    revert steps
    decide +kernel
  obtain ⟨hcondensed, hagain⟩ := condensed_and_dedup_dedup_eq_self sound_empty parseProperty_contract (by decide)
    (by decide +kernel) hfit
  refine ⟨hcondensed, hagain, ?_⟩
  rw [dedup, Sharing.Linked.share, plan_contract]
  decide +kernel

end Schemata.Graph
