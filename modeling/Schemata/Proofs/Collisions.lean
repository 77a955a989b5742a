import Schemata.Proofs.Graph.Collecting
import Schemata.Proofs.TypeNames

/-!
# When shared names collide

Sharing gives every group of equal properties of an object the segment `common`, whatever other groups there are and
whatever the other properties are called. So two different objects can come to have one name, and then the objects
below the root can no longer be collected by name.

`exists_objects_dedup_iff` says exactly when this happens, for a root that could be collected before: when segments
spell one name (`Graph.Spells`) for two objects. `contract_collides` is a root for which they do: it has two pairs of
equal properties.
-/

namespace Schemata

namespace Graph

variable {g h : Graph} {root : PropertyId} {moves : List Move} {top : String} {i j k : ItemId} {p : PropertyId}
  {o c : ObjectNode}

/-! ### Names that segments spell -/

/-- Segments spell a name for an object below a root: `top` for an object on top, and the name of the object above with
one more segment for all others. -/
inductive Spells (g : Graph) (root : PropertyId) (top : String) : ItemId → String → Prop where
  /-- The object is inside the root. -/
  | top {k : ItemId} {c : ObjectNode} (henc : g.Encloses (g.property root).item k) (hc : g.object? k = some c) :
      Spells g root top k top
  /-- The object is inside a property of an object. -/
  | inside {i k : ItemId} {o c : ObjectNode} {p : PropertyId} {name : String} (hi : Spells g root top i name)
      (ho : g.object? i = some o) (hp : p ∈ o.properties.elements) (henc : g.Encloses (g.property p).item k)
      (hc : g.object? k = some c) : Spells g root top k (Naming.join name (g.segment o p))

/-- Names are spelled for the objects below the root only. -/
theorem Spells.mem_objectsBelow {name : String} (hk : g.Spells root top k name) :
    k ∈ g.objectsBelow (.property root) := by
  induction hk with
  | top henc hc => exact ⟨.head (link_property_iff.mpr rfl) henc.leads, _, hc⟩
  | inside _ ho hp henc hc ih =>
    have hproperty := ih.1.tail (link_item_property_iff.mpr ⟨_, ho, hp⟩)
    exact ⟨(hproperty.tail (link_property_iff.mpr rfl)).trans henc.leads, _, hc⟩

/-- A name is spelled for every object below the root. -/
theorem exists_spells (top : String) (hk : k ∈ g.objectsBelow (.property root)) :
    ∃ name, g.Spells root top k name := by
  obtain ⟨hk, c, hc⟩ := hk
  revert c
  refine item_induction (fun k henc c hc => ⟨top, .top henc hc⟩) (fun i o p k _ ho ih hp henc c hc => ?_) hk
  obtain ⟨name, hname⟩ := ih o ho
  exact ⟨_, .inside hname ho hp henc hc⟩

/-- In a tree that is spelled by the rule, the name that segments spell for an object is its type name. -/
theorem Spelled.typeName_eq_of_spells (hspelled : Spelled g root moves h) (hg : g.Arboreal root)
    (hmoves : SiblingMoves g root moves)
    (htop : ∀ k c, g.Encloses (g.property root).item k → g.object? k = some c → c.typeName = top) {name : String}
    (hk : h.Spells root top k name) : h.typeName k = name := by
  induction hk with
  | top henc hc =>
    obtain ⟨c, hc, -, -⟩ := hspelled.moved.exists_object? hc
    rw [hspelled.root_item hmoves hg, hspelled.moved.encloses_iff] at henc
    rw [hspelled.root_typeName henc, typeName_of_object? hc, htop _ _ henc hc]
  | inside hi ho hp henc hc ih =>
    have hname := (hspelled.typeName_eq_join hmoves hi.mem_objectsBelow.1 ho hp henc hc).1
    rw [typeName_of_object? hc, hname, ← ih, typeName_of_object? ho]

/-! ### Collecting before and after -/

/-- What can be collected has names. -/
theorem Arboreal.proper_of_objects_eq_ok {found : Registry ItemId} (hg : g.Arboreal root)
    (hfound : g.objects root (-1) 0 = .ok found) : g.Proper root := by
  intro i o p k c hi ho hp henc hc hempty
  have hlink := link_item_property_iff.mpr ⟨o, ho, hp⟩
  have hpk : g.Leads (.property p) (.item k) := .head (link_property_iff.mpr rfl) henc.leads
  -- Only an object without a name gives another object no name, and then the two have one name.
  have hname := (hg.named hi ho hp).typeName_eq k c henc hc
  have hunnamed : o.typeName = "" := by
    by_contra hne
    rw [hempty, Naming.join_eq_append, Naming.join_empty hne] at hname
    exact hne (String.append_eq_empty_iff.mp (String.append_eq_empty_iff.mp hname.symm).1).1
  have hsame : k = i := (exists_objects_eq_ok_iff hg.ranked).mp ⟨found, hfound⟩
    k ⟨(hi.tail hlink).trans hpk, c, hc⟩ i ⟨hi, o, ho⟩ (by
      rw [typeName_of_object? hc, typeName_of_object? ho, hempty, hunnamed])
  exact (hg.ranked.of_leads hi).not_leads hlink (hsame ▸ hpk)

/-- **The objects below a root can still be collected after sharing if and only if segments spell no name for two of
them.** -/
theorem exists_objects_dedup_iff {b : Graph} {ctx : Shape.Context} {name : String} {data : Entries}
    {found : Registry ItemId} (hparse : b.parseProperty ctx name data = .ok (g, root))
    (hbefore : g.objects root (-1) 0 = .ok found) (hdiscerning : linked.Discerning g (.property root))
    (hfit : g.FitsWhileSharing root) :
    (∃ after, (g.dedup root Schema.sharingLevel).objects root (-1) 0 = .ok after) ↔
      ∀ i j name', (g.dedup root Schema.sharingLevel).Spells root (Naming.join ctx.path name) i name' →
        (g.dedup root Schema.sharingLevel).Spells root (Naming.join ctx.path name) j name' → i = j := by
  obtain ⟨hplanted, hloose, htop⟩ := Schema.planted_parseProperty (Planted.refl b) hparse
  have hg : g.Arboreal root := hplanted.arboreal hloose.new
  obtain ⟨moves, hmoves, hspelled⟩ :=
    exists_spelled_dedup hg (hg.proper_of_objects_eq_ok hbefore) hdiscerning hfit
  have hname : ∀ {k name'}, (g.dedup root Schema.sharingLevel).Spells root (Naming.join ctx.path name) k name' →
      (g.dedup root Schema.sharingLevel).typeName k = name' :=
    hspelled.typeName_eq_of_spells hg hmoves htop
  rw [exists_objects_eq_ok_iff (hspelled.moved.ranked hg hmoves .refl)]
  constructor
  · intro hdistinct i j name' hi hj
    exact hdistinct i hi.mem_objectsBelow j hj.mem_objectsBelow ((hname hi).trans (hname hj).symm)
  · intro hdistinct i hi j hj heq
    obtain ⟨namei, hnamei⟩ := exists_spells (Naming.join ctx.path name) hi
    obtain ⟨namej, hnamej⟩ := exists_spells (Naming.join ctx.path name) hj
    have hsame : namei = namej := (hname hnamei).symm.trans (heq.trans (hname hnamej))
    exact hdistinct i j namei hnamei (hsame ▸ hnamej)

/-! ### A contract with two pairs of equal properties -/

/-- A contract: the two addresses are defined alike, and so are the two lists of parties. -/
def contract : Entries :=
  let address : Document := .mapping (Schema.definition "object")
  let parties : Document := .mapping [(.text "type", .text "array"), (.text "items", address)]
  [(.text "type", .text "object"), (.text "properties", .mapping
    [(.text "billing", address), (.text "buyers", parties), (.text "sellers", parties), (.text "shipping", address)])]

/-- The contract before anything is shared. -/
def contractRead : Graph × PropertyId :=
  (parseProperty {} {} "contract" contract).toOption.getD default

theorem parseProperty_contract :
    parseProperty {} {} "contract" contract = .ok (contractRead.1, contractRead.2) :=
  eq_ok_of_isSome_toOption (by decide +kernel)

theorem objects_contract :
    contractRead.1.objects contractRead.2 (-1) 0 =
      .ok ((contractRead.1.objects contractRead.2 (-1) 0).toOption.getD default) :=
  eq_ok_of_isSome_toOption (by decide +kernel)

/-- The sellers come to be the list of the buyers, and the shipping address the object of the billing address. -/
theorem plan_contract :
    linked.plan contractRead.1 (.property contractRead.2) Schema.sharingLevel =
      [⟨.property ⟨2⟩, .item ⟨2⟩, .item ⟨4⟩⟩, ⟨.property ⟨3⟩, .item ⟨0⟩, .item ⟨5⟩⟩] := by
  rw [Sharing.Linked.plan, Sharing.plan, Sharing.sweepTree, Sharing.candidates_eq_insertionSort]
  decide +kernel

theorem objects_dedup_contract (after : Registry ItemId) :
    (contractRead.1.dedup contractRead.2 Schema.sharingLevel).objects contractRead.2 (-1) 0 ≠ .ok after := by
  have hnone :
      ((contractRead.1.dedup contractRead.2 Schema.sharingLevel).objects contractRead.2 (-1) 0).toOption = none := by
    rw [dedup, Sharing.Linked.share, plan_contract]
    decide +kernel
  intro hafter
  rw [hafter] at hnone
  exact Option.some_ne_none after hnone

/-- The contract can be collected before its equal properties are shared, and not after. -/
theorem contract_collides :
    ∃ g root before, parseProperty {} {} "contract" contract = .ok (g, root) ∧
      g.objects root (-1) 0 = .ok before ∧ ∀ after, (g.dedup root Schema.sharingLevel).objects root (-1) 0 ≠ .ok after :=
  ⟨contractRead.1, contractRead.2, _, parseProperty_contract, objects_contract, objects_dedup_contract⟩

/-- So one name is spelled for both of its shared objects. -/
theorem contract_spells_one_name_twice :
    ¬ ∀ i j name, (contractRead.1.dedup contractRead.2 Schema.sharingLevel).Spells contractRead.2 "contract" i name →
      (contractRead.1.dedup contractRead.2 Schema.sharingLevel).Spells contractRead.2 "contract" j name → i = j := by
  have hfit : contractRead.1.FitsWhileSharing contractRead.2 := by
    intro steps hsteps
    rw [plan_contract, ← List.mem_inits] at hsteps
    revert steps
    decide +kernel
  have hiff := exists_objects_dedup_iff parseProperty_contract objects_contract (by decide +kernel) hfit
  have hpath : Naming.join ({} : Shape.Context).path "contract" = "contract" := by decide
  rw [hpath] at hiff
  rw [← hiff]
  rintro ⟨after, hafter⟩
  exact objects_dedup_contract after hafter

end Graph

end Schemata
