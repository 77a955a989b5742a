import Schemata.Proofs.Graph.Spelling
import Schemata.Proofs.Schema

/-!
# Type names of a schema

Once the equal subtrees of a schema are shared, the name of each object tells where it stands: it is the name of the
object above it, an underscore and the segment of the property that holds it (`Schema.typeName_eq_of_parse`). The
names do not depend on the order in which the redirections are carried out.

Two things are asked for. The digests have to tell the subtrees of the schema apart, as they are meant to. And the
names have to be short enough for 64-bit positions, which holds of every text that a machine can keep.
-/

namespace Schemata

namespace Graph

variable {g : Graph} {root : PropertyId}

/-- In a tree whose topmost objects have names, all objects have names. -/
theorem Arboreal.typeName_ne_empty (hg : g.Arboreal root)
    (htop : ∀ k c, g.Encloses (g.property root).item k → g.object? k = some c → c.typeName ≠ "") {k : ItemId}
    (hk : g.Leads (.property root) (.item k)) : ∀ c, g.object? k = some c → c.typeName ≠ "" := by
  refine item_induction (fun k henc c hc => htop k c henc hc) (fun i o p k hi ho ih hp henc c hc => ?_) hk
  rw [(hg.named hi ho hp).typeName_eq k c henc hc, Naming.join_eq_append, Naming.join_empty (ih o ho)]
  exact fun hempty => ih o ho (String.append_eq_empty_iff.mp (String.append_eq_empty_iff.mp hempty).1).1

theorem Arboreal.proper (hg : g.Arboreal root)
    (htop : ∀ k c, g.Encloses (g.property root).item k → g.object? k = some c → c.typeName ≠ "") :
    g.Proper root := by
  intro i o p k c hi ho hp henc hc
  have hproperty := hi.tail (link_item_property_iff.mpr ⟨o, ho, hp⟩)
  exact hg.typeName_ne_empty htop ((hproperty.tail (link_property_iff.mpr rfl)).trans henc.leads) c hc

end Graph

namespace Schema

open Schemata.Graph (linked)

variable {g g₀ h : Graph} {data : Entries} {s : Schema}

/-- **The objects of a schema are named by their places.** -/
theorem typeName_eq_of_parse (hparse : parse g data = .ok (h, s)) (hread : read g data = .ok (g₀, s))
    (hid : s.id ≠ "") (hdiscerning : linked.Discerning g₀ (.property s.root)) (hfit : g₀.FitsWhileSharing s.root) :
    (∃ o, h.object? (h.property s.root).item = some o ∧ o.typeName = s.id) ∧
      ∀ i o, h.Leads (.property s.root) (.item i) → h.object? i = some o →
        o.properties.Filed h.propertyName ∧
          ∀ p ∈ o.properties.elements, ∀ k c, h.Encloses (h.property p).item k → h.object? k = some c →
            c.typeName = o.typeName ++ "_" ++ h.segment o p := by
  obtain ⟨hplanted, hloose, r, hr, hrname⟩ := planted_read hread
  have hg : g₀.Arboreal s.root := hplanted.arboreal hloose.new
  -- The root holds its object directly, so no other object is on top.
  have htop : ∀ k c, g₀.Encloses (g₀.property s.root).item k → g₀.object? k = some c → c.typeName ≠ "" := by
    intro k c henc hc
    cases henc with
    | refl =>
      rw [hr] at hc
      rwa [← Option.some.inj hc, hrname]
    | array hitem _ => exact nomatch hitem.symm.trans (Graph.object?_eq_some_iff.mp hr)
  obtain ⟨moves, hmoves, hspelled⟩ := Graph.exists_spelled_dedup hg (hg.proper htop) hdiscerning hfit
  obtain rfl : g₀.dedup s.root sharingLevel = h :=
    congrArg Prod.fst (Except.ok.inj ((parse_eq_of_read hread).symm.trans hparse))
  refine ⟨?_, ?_⟩
  · rw [hspelled.root_item hmoves hg]
    refine ⟨_, hspelled.moved.object?_eq_some hr, ?_⟩
    exact (hspelled.root_typeName (.refl _)).trans ((Graph.typeName_of_object? hr).trans hrname)
  · intro i o hi ho
    refine ⟨hspelled.filed hmoves hg hi ho, fun p hp k c henc hc => ?_⟩
    have hne := hspelled.typeName_ne_empty hmoves hg htop hi ho
    rw [(hspelled.typeName_eq_join hmoves hi ho hp henc hc).1, Naming.join_eq_append, Naming.join_empty hne]

/-! ### An order with two addresses -/

/-- An order with two addresses that are defined alike. -/
def order : Entries :=
  [(.text "id", .text "order"), (.text "schema", .mapping
    [(.text "type", .text "object"), (.text "properties", .mapping
      [(.text "billing", .mapping (definition "object")), (.text "shipping", .mapping (definition "object"))])])]

/-- The order before its addresses are shared. -/
def orderRead : Graph × Schema :=
  (read {} order).toOption.getD default

theorem read_order : read {} order = .ok orderRead :=
  eq_ok_of_isSome_toOption (by decide +kernel)

/-- The second address comes to hold the object of the first. -/
theorem plan_order :
    linked.plan orderRead.1 (.property orderRead.2.root) sharingLevel =
      [⟨.property ⟨1⟩, .item ⟨0⟩, .item ⟨1⟩⟩] := by
  rw [Sharing.Linked.plan, Sharing.plan, Sharing.sweepTree, Sharing.candidates_eq_insertionSort]
  decide +kernel

/-- Both addresses are one object, and its name says so. -/
theorem typeName_order :
    ∃ h s o, parse {} order = .ok (h, s) ∧ h.object? (h.property s.root).item = some o ∧
      o.properties.keys = ["billing", "shipping"] ∧
        ∀ p ∈ o.properties.elements, ∀ k c, h.Encloses (h.property p).item k → h.object? k = some c →
          c.typeName = o.typeName ++ "_" ++ "common" := by
  set h := orderRead.1.dedup orderRead.2.root sharingLevel with hh
  have hparse : parse {} order = .ok (h, orderRead.2) := parse_eq_of_read read_order
  have hfit : orderRead.1.FitsWhileSharing orderRead.2.root := by
    intro steps hsteps
    rw [plan_order, ← List.mem_inits] at hsteps
    revert steps
    decide +kernel
  have hroot : h.object? (h.property orderRead.2.root).item =
      some { typeName := "order", properties := ⟨[("billing", ⟨0⟩), ("shipping", ⟨1⟩)]⟩ } := by
    rw [hh, Graph.dedup, Sharing.Linked.share, plan_order]
    decide +kernel
  have hsegment : ∀ p ∈ [(⟨0⟩ : PropertyId), ⟨1⟩],
      h.segment { typeName := "order", properties := ⟨[("billing", ⟨0⟩), ("shipping", ⟨1⟩)]⟩ } p = "common" := by
    rw [hh, Graph.dedup, Sharing.Linked.share, plan_order]
    decide +kernel
  have hnames := (typeName_eq_of_parse hparse read_order (by decide +kernel) (by decide +kernel) hfit).2
  refine ⟨h, orderRead.2, _, hparse, hroot, rfl, fun p hp k c henc hc => ?_⟩
  rw [(hnames _ _ (.single (Graph.link_property_iff.mpr rfl)) hroot).2 p hp k c henc hc, hsegment p hp]

end Schema

end Schemata
