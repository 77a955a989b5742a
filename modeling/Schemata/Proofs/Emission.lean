import Schemata.Proofs.Go.Alike
import Schemata.Proofs.Graph.Origins
import Schemata.Proofs.Scalar
import Schemata.Proofs.Schema

/-!
# Source texts before and after sharing

The source text for an object is written from its record. When the equal subtrees of a definition are shared, an object
may be exchanged for another one, and what is written changes with it. The names of objects change by design. Everything
else stays if the fingerprints tell all that is written, and they leave out two things:

* `number` and the unknown type `float` have one name, but different Go types (`Graph.KindsTold`);
* whether a default was given for an array or an object is not part of any fingerprint (`Graph.DefaultsTold`).

If no two subtrees differ in these alone, every object is written as before, up to the type names (`dedup_keeps_text`).
Otherwise an object may get the defaults of another one (`dedup_adds_default_to_returns`).
-/

namespace Schemata

/-- The kind of a scalar. -/
def Item.kind? : Item → Option ScalarKind
  | .scalar s => some s.kind
  | _ => none

theorem Item.kind?_eq_none_iff {x : Item} : x.kind? = none ↔ ∀ s, x ≠ .scalar s := by
  cases x <;> simp [kind?]

namespace Graph

variable {g h : Graph} {root p q r : PropertyId} {i j : ItemId} {path : List String} {name : String} {s t : Scalar}
  {ctx : Shape.Context}

/-! ### What fingerprints leave out -/

/-- The kinds of scalars are told apart by their names. -/
def KindsTold (g : Graph) : Prop :=
  ∀ x ∈ g.items.toList, ∀ y ∈ g.items.toList, ∀ k ∈ x.kind?, ∀ l ∈ y.kind?, k.name = l.name → k = l

/-- Properties without scalars that unfold alike agree on whether a default was given. -/
def DefaultsTold (g : Graph) : Prop :=
  ∀ m < g.properties.size, ∀ n < g.properties.size,
    linked.pattern g (.property ⟨m⟩) = linked.pattern g (.property ⟨n⟩) → (g.held ⟨m⟩).kind? = none →
      (g.property ⟨m⟩).hasDefault = (g.property ⟨n⟩).hasDefault

instance : Decidable g.KindsTold :=
  inferInstanceAs (Decidable (∀ x ∈ g.items.toList, ∀ y ∈ g.items.toList, ∀ k ∈ x.kind?, ∀ l ∈ y.kind?, _ → _))

instance : Decidable g.DefaultsTold :=
  inferInstanceAs (Decidable (∀ m < _, ∀ n < _, _ → _ → _))

theorem KindsTold.kind_eq (hkinds : g.KindsTold) (hi : g.Present (.item i)) (hj : g.Present (.item j))
    (hs : g.item i = .scalar s) (ht : g.item j = .scalar t) (hname : s.kind.name = t.kind.name) : s.kind = t.kind := by
  have hmem : ∀ {k}, g.Present (.item k) → g.item k ∈ g.items.toList := by
    intro k hk
    rw [item, Array.getD_eq_getD_getElem?, Array.getElem?_eq_getElem hk, Option.getD_some]
    exact Array.getElem_mem_toList hk
  refine hkinds _ (hmem hi) _ (hmem hj) _ ?_ _ ?_ hname
  · rw [hs]
    rfl
  · rw [ht]
    rfl

/-! ### Forms -/

/-- The form of an item of a sound graph. -/
theorem Sound.form_eq (hg : g.Sound) (hi : g.Present (.item i)) :
    g.form i =
      match g.item i with
      | .scalar s => .scalar s
      | .array e => .list (g.form e)
      | .object o => .record (recordName o) := by
  obtain ⟨level, hpos, hlevel⟩ := hg.exists_levelled
  have helement : ∀ {j e}, g.Present (.item j) → g.item j = .array e → g.Present (.item e) ∧ level e < level j :=
    fun hj he => ⟨hg.present hj (link_item_item_iff.mpr he), (hlevel hj).element .refl he⟩
  -- One more step into arrays does not change a form that is complete.
  have hstable : ∀ n j, g.Present (.item j) → level j ≤ n → g.formWithin (n + 1) j = g.formWithin n j := by
    intro n
    induction n with
    | zero => exact fun j hj hle => absurd (hpos hj) (Nat.not_lt.mpr hle)
    | succ n ih =>
      intro j hj hle
      rw [formWithin.eq_2, formWithin.eq_2]
      cases hitem : g.item j with
      | scalar s => rfl
      | object o => rfl
      | array e =>
        obtain ⟨he, hlt⟩ := helement hj hitem
        simp only [ih e he (by omega)]
  obtain ⟨d, hd⟩ : ∃ d, g.depth = d + 1 := Nat.exists_eq_succ_of_ne_zero (Nat.ne_zero_of_lt hi)
  rw [form, hd, formWithin.eq_2]
  cases hitem : g.item i with
  | scalar s => rfl
  | object o => rfl
  | array e =>
    obtain ⟨he, hlt⟩ := helement hi hitem
    have hle := (hlevel hi).le .refl
    simp only [form, hd, hstable d e he (by omega)]

theorem Sound.form_eq_scalar_iff (hg : g.Sound) (hi : g.Present (.item i)) :
    g.form i = .scalar s ↔ g.item i = .scalar s := by
  rw [hg.form_eq hi]
  cases g.item i <;> simp

/-- Items that unfold alike have alike forms, up to the name of the object inside. -/
theorem Sound.form_alike (hg : g.Sound) (hh : h.Sound)
    (hkinds : ∀ {i j s t}, g.Present (.item i) → h.Present (.item j) → g.item i = .scalar s → h.item j = .scalar t →
      s.kind.name = t.kind.name → s.kind = t.kind)
    (hi : g.Present (.item i)) (hj : h.Present (.item j))
    (hij : linked.pattern g (.item i) = linked.pattern h (.item j)) :
    (h.form j).Alike ((g.form i).renamed (h.typeName (h.innermost j))) := by
  obtain ⟨henc, hnot⟩ := hg.encloses_innermost hi
  generalize g.innermost i = k at henc hnot
  induction henc generalizing j with
  | refl i =>
    cases hitem : g.item i with
    | array e => exact absurd hitem (hnot e)
    | scalar s =>
      obtain ⟨t, ht, hfingerprint⟩ := hg.exists_scalar_of_pattern_eq hh hi hj hij hitem
      obtain ⟨hname, hnull, hdefault⟩ := Scalar.fingerprint_eq_iff.mp hfingerprint
      rw [hg.form_eq hi, hh.form_eq hj, hitem, ht]
      exact .scalar (hkinds hi hj hitem ht hname.symm).symm hnull hdefault
    | object o =>
      obtain ⟨o', ho', hproperties⟩ := hg.exists_object_of_pattern_eq hh hi hj hij (object?_eq_some_iff.mpr hitem)
      have hempty : o'.isEmpty = o.isEmpty := by
        have hlength := congrArg List.length hproperties
        rw [List.length_map, List.length_map] at hlength
        rw [ObjectNode.isEmpty, ObjectNode.isEmpty, Bool.eq_iff_iff, Registry.isEmpty_iff, Registry.isEmpty_iff,
          ← List.length_eq_zero_iff, ← List.length_eq_zero_iff, hlength]
      have hinside : h.innermost j = j :=
        hh.innermost_of_not_array hj fun e he => nomatch (object?_eq_some_iff.mp ho').symm.trans he
      rw [hg.form_eq hi, hh.form_eq hj, hitem, object?_eq_some_iff.mp ho', hinside, typeName_of_object? ho']
      have hname : ({ recordName o with typeName := o'.typeName } : Go.RecordName) = recordName o' := by
        rw [recordName, recordName, hempty]
      rw [Go.Form.renamed, hname]
      exact .record _
  | array harray _ ih =>
    obtain ⟨e', he', hpattern⟩ := hg.exists_array_of_pattern_eq hh hi hj hij harray
    have hinner := ih (hg.present hi (link_item_item_iff.mpr harray)) (hh.present hj (link_item_item_iff.mpr he'))
      hpattern hnot
    rw [hg.form_eq hi, hh.form_eq hj, harray, he', hh.innermost_array hj he']
    exact .list hinner

/-! ### Members after sharing -/

/-- The type name of the object at the end of a path of names, inside of arrays. -/
def typeNameAt (g : Graph) (p : PropertyId) (path : List String) : String :=
  (g.propertyAt? p path).elim "" fun q => g.typeName (g.innermost (g.property q).item)

section Members

variable (hsound : g.Sound) (hread : g.ReadIn ctx (.property root))
  (hdiscerning : linked.Discerning g (.property root))

include hsound hread

/-- A member that was read has a default literal only if a default was given. -/
theorem ReadIn.candid : (g.member root).Candid := by
  intro s hs hdefault
  have hitem := hsound.present_held hread.present
  exact hread.hasDefault_eq_true ((hsound.form_eq_scalar_iff hitem).mp hs) hdefault

variable (hg : g.Arboreal root) (hq : (g.dedup root Schema.sharingLevel).propertyAt? root path = some q)

include hdiscerning hg hq

/-- What a path leads to after sharing was read on the level that the path leads to. Of its field only the mark
changes. -/
theorem ReadIn.exists_readIn_dedup : ∃ ctx', g.ReadIn ctx' (.property q) ∧ ctx'.level = ctx.level + path.length ∧
    ∃ item mark, (g.dedup root Schema.sharingLevel).property q = { g.property q with item, mark } := by
  obtain ⟨moves, hmoves, hmoved⟩ := hg.exists_moved_dedup hdiscerning
  obtain ⟨path', hlength, hq'⟩ := hmoved.exists_propertyAt? hsound hread.present hg hmoves hq
  obtain ⟨ctx', hctx', hlevel⟩ := hread.propertyAt? hsound hq'
  exact ⟨ctx', hctx', hlength ▸ hlevel, hmoved.property_eq q⟩

/-- What a property holds has the fingerprint that it had before sharing. -/
theorem ReadIn.fingerprint_held_dedup :
    ((g.dedup root Schema.sharingLevel).held q).fingerprint = (g.held q).fingerprint := by
  have hh := hsound.dedup hread.present
  obtain ⟨ctx', hctx', -, -⟩ := hread.exists_readIn_dedup hsound hdiscerning hg hq
  have hq' : (g.dedup root Schema.sharingLevel).Present (.property q) := present_dedup_iff.mpr hctx'.present
  have hpattern := hsound.pattern_dedup hread.present hdiscerning hctx'.present
  exact (hh.of_pattern_eq hsound (hh.present_held hq') (hsound.present_held hctx'.present)
    (hh.pattern_held_eq hsound hq' hctx'.present hpattern)).1

theorem ReadIn.candid_dedup : ((g.dedup root Schema.sharingLevel).member q).Candid := by
  intro t ht hdefault
  have hh := hsound.dedup hread.present
  obtain ⟨ctx', hctx', -, item, mark, hproperty⟩ := hread.exists_readIn_dedup hsound hdiscerning hg hq
  have hitem := hh.present_held (present_dedup_iff.mpr hctx'.present)
  have hheld : (g.dedup root Schema.sharingLevel).held q = .scalar t := (hh.form_eq_scalar_iff hitem).mp ht
  have hfingerprint := hread.fingerprint_held_dedup hsound hdiscerning hg hq
  obtain ⟨s, hs⟩ := Item.scalar_of_fingerprint_eq hfingerprint hheld
  rw [hheld, hs] at hfingerprint
  -- The scalar may be another one than was read here, but by its fingerprint the one read here has a default, too.
  have hgiven : s.default.isSome = true := by
    rw [← Option.isSome_map, ← (Scalar.fingerprint_eq_iff.mp hfingerprint).2.2, Option.isSome_map]
    exact hdefault
  exact (congrArg (fun x : Property => x.hasDefault) hproperty).trans (hctx'.hasDefault_eq_true hs hgiven)

variable (hr : g.propertyAt? root path = some r)

include hr

omit hg in
/-- What a path leads to unfolds alike before and after sharing. -/
theorem ReadIn.pattern_dedup_eq :
    linked.pattern g (.property r) = linked.pattern (g.dedup root Schema.sharingLevel) (.property q) := by
  obtain ⟨q', hq', hpattern⟩ := hsound.exists_propertyAt?_dedup hread.present hdiscerning hr
  obtain rfl := Option.some.inj (hq'.symm.trans hq)
  exact hpattern

variable (hkinds : g.KindsTold)

include hkinds

/-- **A member after sharing** is written like the one before it, up to the name of the object inside. -/
theorem ReadIn.member_alike :
    ((g.dedup root Schema.sharingLevel).member q).Alike
      ((g.member r).renamed ((g.dedup root Schema.sharingLevel).typeNameAt root path)) := by
  set h := g.dedup root Schema.sharingLevel
  have hh : h.Sound := hsound.dedup hread.present
  obtain ⟨moves, -, hmoved⟩ := hg.exists_moved_dedup hdiscerning
  have hpattern := hread.pattern_dedup_eq hsound hdiscerning hq hr
  obtain ⟨ctx', hctx', hlevel', item, mark, hproperty⟩ := hread.exists_readIn_dedup hsound hdiscerning hg hq
  obtain ⟨ctx'', hctx'', hlevel''⟩ := hread.propertyAt? hsound hr
  have hr' := hctx''.present
  have hq' : h.Present (.property q) := present_dedup_iff.mpr hctx'.present
  refine ⟨(hh.of_pattern_eq hsound hq' hr' hpattern.symm).1, ?_, ?_⟩
  · have hplacement : (h.property q).placement = (g.property r).placement := by
      rw [hproperty, hctx''.placement_eq, hlevel'', ← hlevel', ← hctx'.placement_eq]
    exact hplacement
  · have hname : h.typeNameAt root path = h.typeName (h.innermost (h.property q).item) := by
      rw [typeNameAt, hq, Option.elim_some]
    rw [hname]
    refine hsound.form_alike hh (fun hi hj hs ht => ?_) (hsound.present_held hr') (hh.present_held hq')
      (hsound.pattern_held_eq hh hr' hq' hpattern)
    exact hkinds.kind_eq hi (present_dedup_iff.mp hj) hs (hmoved.scalar_iff.mp ht)

/-- It starts with the same value if defaults are told. -/
theorem ReadIn.member_startAlike (hdefaults : g.DefaultsTold) :
    ((g.dedup root Schema.sharingLevel).member q).StartAlike
      ((g.member r).renamed ((g.dedup root Schema.sharingLevel).typeNameAt root path)) := by
  obtain ⟨ctx', hctx', -, item, mark, hproperty⟩ := hread.exists_readIn_dedup hsound hdiscerning hg hq
  obtain ⟨ctx'', hctx'', -⟩ := hread.propertyAt? hsound hr
  refine ⟨hread.member_alike hsound hdiscerning hg hq hr hkinds, hread.candid_dedup hsound hdiscerning hg hq,
    (hctx''.candid hsound).renamed _, fun hscalar => ?_⟩
  -- What holds no scalar after sharing held none before.
  have hnone : (g.held q).kind? = none := by
    refine Item.kind?_eq_none_iff.mpr fun s hs => ?_
    have hh := hsound.dedup hread.present
    have hitem := hh.present_held (present_dedup_iff.mpr hctx'.present)
    obtain ⟨t, ht⟩ := Item.scalar_of_fingerprint_eq (hread.fingerprint_held_dedup hsound hdiscerning hg hq).symm hs
    exact hscalar t ((hh.form_eq_scalar_iff hitem).mpr ht)
  have hpattern : linked.pattern g (.property q) = linked.pattern g (.property r) :=
    (hsound.pattern_dedup hread.present hdiscerning hctx'.present).symm.trans
      (hread.pattern_dedup_eq hsound hdiscerning hq hr).symm
  have hdefault := hdefaults q.index hctx'.present r.index hctx''.present hpattern hnone
  exact (congrArg (fun x : Property => x.hasDefault) hproperty).trans hdefault

end Members

/-! ### Records after sharing -/

section Records

variable {o o' : ObjectNode} (hsound : g.Sound) (hread : g.ReadIn ctx (.property root))
  (hdiscerning : linked.Discerning g (.property root)) (ho : g.itemAt? root path = some (.object o))

include hsound hread hdiscerning ho

/-- A path to an object leads to an object after sharing, and the properties of the two unfold alike. -/
theorem ReadIn.exists_object_dedup : ∃ o', (g.dedup root Schema.sharingLevel).itemAt? root path = some (.object o') ∧
    o'.properties.elements.map (fun q => linked.pattern (g.dedup root Schema.sharingLevel) (.property q)) =
      o.properties.elements.map fun r => linked.pattern g (.property r) := by
  have hh := hsound.dedup hread.present
  obtain ⟨p, hp, hitem⟩ := itemAt?_eq_some_iff.mp ho
  obtain ⟨q, hq, hpattern⟩ := hsound.exists_propertyAt?_dedup hread.present hdiscerning hp
  have hp' := hsound.present_propertyAt? hread.present hp
  have hq' := hh.present_propertyAt? (present_dedup_iff.mpr hread.present) hq
  obtain ⟨o', ho', hproperties⟩ := hsound.exists_object_of_pattern_eq hh (hsound.present_innermost hp')
    (hh.present_innermost hq') (hsound.pattern_inside_eq hh hp' hq' hpattern) (object?_eq_some_iff.mpr hitem)
  exact ⟨o', itemAt?_eq_some_iff.mpr ⟨q, hq, object?_eq_some_iff.mp ho'⟩, hproperties.symm⟩

omit hread hdiscerning in
/-- A property of the object at the end of a path is one name further. -/
theorem Sound.propertyAt?_of_mem (hr : r ∈ o.properties.elements) :
    g.propertyAt? root (path ++ [g.propertyName r]) = some r := by
  obtain ⟨p, hp, hitem⟩ := itemAt?_eq_some_iff.mp ho
  have hobject := object?_eq_some_iff.mpr hitem
  exact propertyAt?_concat.mpr ⟨p, hp, child?_eq_some_iff.mpr ⟨o, hobject, (hsound.filed hobject).get?_of_mem hr⟩⟩

/-- **A record after sharing** is the record before it with the type names after it, if this holds of the members. -/
theorem ReadIn.record_related {R : Go.Member → Go.Member → Prop}
    (hmembers : ∀ {path r q}, g.propertyAt? root path = some r →
      (g.dedup root Schema.sharingLevel).propertyAt? root path = some q →
      R ((g.dedup root Schema.sharingLevel).member q)
        ((g.member r).renamed ((g.dedup root Schema.sharingLevel).typeNameAt root path)))
    (ho' : (g.dedup root Schema.sharingLevel).itemAt? root path = some (.object o')) :
    ((g.dedup root Schema.sharingLevel).record o').Related R
      ((g.record o).renamed fun below => (g.dedup root Schema.sharingLevel).typeNameAt root (path ++ below)) := by
  set h := g.dedup root Schema.sharingLevel
  have hh : h.Sound := hsound.dedup hread.present
  have hroot : h.Present (.property root) := present_dedup_iff.mpr hread.present
  obtain ⟨o'', ho'', hproperties⟩ := hread.exists_object_dedup hsound hdiscerning ho
  obtain rfl := Item.object.inj (Option.some.inj (ho''.symm.trans ho'))
  refine ⟨?_, ?_⟩
  · obtain ⟨q, hq, hitem⟩ := itemAt?_eq_some_iff.mp ho'
    have hname : h.typeNameAt root (path ++ []) = o''.typeName := by
      rw [List.append_nil, typeNameAt, hq, Option.elim_some, typeName_of_object? (object?_eq_some_iff.mpr hitem)]
    exact hname.symm
  · -- The properties are paired by their names, and these are one name further down.
    rw [← List.forall₂_eq_eq_eq, List.forall₂_map_left_iff, List.forall₂_map_right_iff, List.forall₂_iff_zip]
      at hproperties
    simp only [record, Go.Record.renamed]
    rw [List.forall₂_map_left_iff, List.forall₂_map_right_iff, List.forall₂_map_right_iff, List.forall₂_iff_zip]
    refine ⟨hproperties.1, fun {q r} hmem => ?_⟩
    obtain ⟨hq, hr⟩ := List.of_mem_zip hmem
    have hq' := hh.propertyAt?_of_mem ho' hq
    have hr' := hsound.propertyAt?_of_mem ho hr
    have hname : h.propertyName q = g.propertyName r := (hh.of_pattern_eq hsound (hh.present_propertyAt? hroot hq')
      (hsound.present_propertyAt? hread.present hr') (hproperties.2 hmem)).1
    rw [hname] at hq'
    exact hmembers hr' hq'

end Records

end Graph

/-! ### The texts for an object -/

open Schemata.Graph (linked)

/-- **Sharing keeps the texts for an object** up to the type names, as far as fingerprints tell what is written. -/
theorem Graph.dedup_keeps_text {ctx : Shape.Context} {name : String} {data : Entries} {g : Graph} {root : PropertyId}
    (hparse : Graph.parseProperty {} ctx name data = .ok (g, root))
    (hdiscerning : linked.Discerning g (.property root)) {path : List String} {o : ObjectNode}
    (ho : g.itemAt? root path = some (.object o)) :
    ∃ o', (g.dedup root Schema.sharingLevel).itemAt? root path = some (.object o') ∧
      (g.KindsTold → ∀ suffix interfaceSuffix typeSuffix,
        let typeNames below := (g.dedup root Schema.sharingLevel).typeNameAt root (path ++ below)
        let before := (g.record o).renamed typeNames
        let after := (g.dedup root Schema.sharingLevel).record o'
        after.struct suffix = before.struct suffix ∧ after.interface suffix = before.interface suffix ∧
          after.implementation interfaceSuffix typeSuffix = before.implementation interfaceSuffix typeSuffix ∧
          (g.DefaultsTold → after.constructor suffix = before.constructor suffix)) := by
  obtain ⟨hplanted, hloose, -⟩ := Schema.planted_parseProperty (.refl {}) hparse
  have hsound : g.Sound := hplanted.sound sound_empty
  have harboreal : g.Arboreal root := hplanted.arboreal hloose.new
  have hread : g.ReadIn ctx (.property root) := (readIn_parseProperty hparse).2
  obtain ⟨o', ho', -⟩ := hread.exists_object_dedup hsound hdiscerning ho
  refine ⟨o', ho', fun hkinds suffix interfaceSuffix typeSuffix => ?_⟩
  have halike := hread.record_related hsound hdiscerning ho
    (fun hr hq => hread.member_alike hsound hdiscerning harboreal hq hr hkinds) ho'
  refine ⟨halike.struct_eq suffix, halike.interface_eq suffix, halike.implementation_eq interfaceSuffix typeSuffix,
    fun hdefaults => ?_⟩
  have hstart := hread.record_related hsound hdiscerning ho
    (fun hr hq => hread.member_startAlike hsound hdiscerning harboreal hq hr hkinds hdefaults) ho'
  exact hstart.constructor_eq suffix

/-! ### The lines of invoices and returns -/

section Shop

open Schema (definition sharingLevel)

/-- A document with lines of text. -/
def withLines (default : Entries) : Entries :=
  [(.text "type", .text "object"), (.text "properties", .mapping
    [(.text "lines", .mapping
      ([(.text "type", .text "array"), (.text "items", .mapping (definition "string"))] ++ default))])]

/-- A shop with invoices and returns. The lines of invoices may be given a default; the lines of returns have none. -/
def shop (given : Bool) : Entries :=
  [(.text "type", .text "object"), (.text "properties", .mapping
    [(.text "invoices", .mapping (withLines (if given then [(.text "default", .list [.text "total"])] else []))),
      (.text "returns", .mapping (withLines []))])]

/-- The shop before anything is shared. -/
def shopRead (given : Bool) : Graph × PropertyId :=
  (Graph.parseProperty {} {} "shop" (shop given)).toOption.getD default

theorem parse_shop (given : Bool) : Graph.parseProperty {} {} "shop" (shop given) = .ok (shopRead given) := by
  refine eq_ok_of_isSome_toOption ?_
  cases given <;> decide +kernel

/-- The returns come to hold the object of the invoices. -/
theorem dedup_shop (given : Bool) : (shopRead given).1.dedup (shopRead given).2 sharingLevel =
    (shopRead given).1.redirect ⟨.property ⟨3⟩, .item ⟨2⟩, .item ⟨5⟩⟩ := by
  have hplan : linked.plan (shopRead given).1 (.property (shopRead given).2) sharingLevel =
      [⟨.property ⟨3⟩, .item ⟨2⟩, .item ⟨5⟩⟩] := by
    rw [Sharing.Linked.plan, Sharing.plan, Sharing.sweepTree, Sharing.candidates_eq_insertionSort]
    cases given <;> decide +kernel
  rw [Graph.dedup, Sharing.Linked.share, hplan]
  rfl

/-- Without a default, the constructor for returns stays as it was but for its name. -/
theorem constructor_of_returns : ∃ o o',
    (shopRead false).1.itemAt? (shopRead false).2 ["returns"] = some (.object o) ∧ o.typeName = "shop_returns" ∧
      ((shopRead false).1.dedup (shopRead false).2 sharingLevel).itemAt? (shopRead false).2 ["returns"] =
        some (.object o') ∧ o'.typeName = "shop_common" ∧
      ∀ suffix, (((shopRead false).1.dedup (shopRead false).2 sharingLevel).record o').constructor suffix =
        (((shopRead false).1.record o).renamed fun below => ((shopRead false).1.dedup (shopRead false).2
          sharingLevel).typeNameAt (shopRead false).2 (["returns"] ++ below)).constructor suffix := by
  have ho : (shopRead false).1.itemAt? (shopRead false).2 ["returns"] =
      some (.object ⟨"shop_returns", ⟨[("lines", ⟨2⟩)]⟩, []⟩) := by decide +kernel
  obtain ⟨o', ho', htexts⟩ := Graph.dedup_keeps_text (parse_shop false) (by decide +kernel) ho
  refine ⟨_, o', ho, rfl, ho', ?_, fun suffix => ?_⟩
  · have hshared : ((shopRead false).1.dedup (shopRead false).2 sharingLevel).itemAt? (shopRead false).2 ["returns"] =
        some (.object ⟨"shop_common", ⟨[("lines", ⟨0⟩)]⟩, []⟩) := by
      rw [dedup_shop]
      decide +kernel
    rw [Item.object.inj (Option.some.inj (ho'.symm.trans hshared))]
  · exact (htexts (by decide +kernel) suffix suffix suffix).2.2.2 (by decide +kernel)

/-- **The returns get the default of the invoices**: whatever the type names are, the constructor for returns has an
entry that it did not have. -/
theorem dedup_adds_default_to_returns : ∃ o o',
    Graph.parseProperty {} {} "shop" (shop true) = .ok (shopRead true) ∧
      linked.Discerning (shopRead true).1 (.property (shopRead true).2) ∧
      (shopRead true).1.itemAt? (shopRead true).2 ["returns"] = some (.object o) ∧
      ((shopRead true).1.dedup (shopRead true).2 sharingLevel).itemAt? (shopRead true).2 ["returns"] =
        some (.object o') ∧
      ∀ typeNames, (((shopRead true).1.dedup (shopRead true).2 sharingLevel).record o').constructor "" ≠
        (((shopRead true).1.record o).renamed typeNames).constructor "" := by
  refine ⟨⟨"shop_returns", ⟨[("lines", ⟨2⟩)]⟩, []⟩, ⟨"shop_common", ⟨[("lines", ⟨0⟩)]⟩, []⟩, parse_shop true,
    by decide +kernel, by decide +kernel, ?_, fun typeNames => ?_⟩
  · rw [dedup_shop]
    decide +kernel
  · -- An entry has one colon, and a type name is written three times.
    have hbefore : (shopRead true).1.record ⟨"shop_returns", ⟨[("lines", ⟨2⟩)]⟩, []⟩ =
        ⟨"shop_returns", [⟨"lines", .nested, false, .list (.scalar ⟨.string, false, false, none⟩)⟩]⟩ := by
      decide +kernel
    have hafter : ((((shopRead true).1.dedup (shopRead true).2 sharingLevel).record
        ⟨"shop_common", ⟨[("lines", ⟨0⟩)]⟩, []⟩).constructor "").toList.count ':' = 1 := by
      rw [dedup_shop]
      decide +kernel
    set n := Naming.goName (typeNames []) "" with hn
    have hcount : ((((shopRead true).1.record ⟨"shop_returns", ⟨[("lines", ⟨2⟩)]⟩, []⟩).renamed
        typeNames).constructor "").toList.count ':' =
          n.toList.count ':' + (n.toList.count ':' + n.toList.count ':') := by
      rw [hbefore]
      unfold Go.Record.constructor
      simp [Go.Record.renamed, Go.Member.renamed, Go.Form.renamed, Go.Record.name, Go.RecordName.name,
        Go.RecordName.goType, Go.Member.constructorEntry?, Go.Member.initialValue?, Go.Form.wrapper?, hn]
    intro heq
    rw [heq, hcount] at hafter
    omega

end Shop

end Schemata
