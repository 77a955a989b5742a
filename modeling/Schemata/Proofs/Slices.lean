import Mathlib.Data.Set.BooleanAlgebra
import Mathlib.Order.CompletePartialOrder
import Schemata.Proofs.Collisions
import Schemata.Proofs.Graph.Walks
import Schemata.Proofs.Lineage.Soundness
import Schemata.Proofs.Reading

/-!
# What a slice of a graph holds

The walks that collect objects and properties carry two counters, a limit and an offset, and count down either at
objects or at properties. What they come to is said with paths: a node is at depth `d` if some path to it passes `d`
nodes of its kind (`Graph.Passes`), and a node of a shared subtree may be at several depths. A slice consists of the nodes
that have a depth from the offset on and below the limit (`Graph.objectSlice`, `Graph.propertySlice`).

In a sound graph a walk files its slice, or fails because two nodes of the slice have one name. So the slice of the
properties one step below the root of a schema is what its root object holds.
-/

namespace Schemata

open Registry (Gathers)

/-! ### Gathering -/

namespace Registry

variable {α ε : Type} {nameOf : α → String} {E : String → ε → Prop}

/-- If a computation gathers more with every level until it comes to an end, it gathers everything. -/
theorem Gathers.of_end {S : Nat → Set α} {walk : Nat → Except ε (Registry α)} {n : Nat} (hmono : Monotone S)
    (hwalk : ∀ m, Gathers nameOf E (S m) (walk m)) (hend : ∀ m, n ≤ m → walk m = walk n) :
    Gathers nameOf E { x | ∃ m, x ∈ S m } (walk n) := by
  cases hn : walk n with
  | error e =>
    obtain ⟨x, hx, y, hy, hrest⟩ : Gathers nameOf E (S n) (.error e) := hn ▸ hwalk n
    exact ⟨x, ⟨n, hx⟩, y, ⟨n, hy⟩, hrest⟩
  | ok found =>
    obtain ⟨hfiled, hmem⟩ : Gathers nameOf E (S n) (.ok found) := hn ▸ hwalk n
    refine ⟨hfiled, fun x => ⟨fun hx => ⟨n, (hmem x).mp hx⟩, fun ⟨m, hx⟩ => ?_⟩⟩
    obtain ⟨-, hmem'⟩ : Gathers nameOf E (S (max n m)) (.ok found) :=
      hn ▸ hend (max n m) (le_max_left n m) ▸ hwalk (max n m)
    exact (hmem' x).mpr (hmono (le_max_right n m) hx)

/-- What is gathered first is gathered with the rest. -/
theorem Gathers.bind {S T : Set α} {result : Except ε (Registry α)} {rest : Registry α → Except ε (Registry α)}
    (hresult : Gathers nameOf E S result)
    (hrest : ∀ found, Gathers nameOf E S (.ok found) → Gathers nameOf E (T ∪ S) (rest found)) :
    Gathers nameOf E (T ∪ S) (result >>= rest) := by
  cases result with
  | error e =>
    obtain ⟨x, hx, y, hy, hclash⟩ := hresult
    exact ⟨x, .inr hx, y, .inr hy, hclash⟩
  | ok found => exact hrest found hresult

/-- One more element is gathered. -/
theorem gathers_register [DecidableEq α] {S : Set α} {found : Registry α} {refuse : DuplicateName → ε} {x : α}
    (hfound : Gathers nameOf E S (.ok found)) (hrefuse : ∀ d, E d.name (refuse d)) :
    Gathers nameOf E ({x} ∪ S) ((found.register nameOf x).mapError refuse) := by
  obtain ⟨hfiled, hmem⟩ := hfound
  rw [register]
  cases hconflict : conflict? nameOf found x with
  | some name =>
    obtain ⟨hname, y, hy, hne⟩ := conflict?_eq_some_iff.mp hconflict
    obtain ⟨hyfound, hyname⟩ := hfiled.get?_eq_some_iff.mp hy
    exact ⟨x, .inl rfl, y, .inr ((hmem y).mp hyfound), hne.symm, hname.trans hyname.symm, hname ▸ hrefuse ⟨_⟩⟩
  | none =>
    have hagree := conflict?_eq_none_iff.mp hconflict
    have hfiled' : (found.put (nameOf x) x).Filed nameOf := hfiled.put rfl
    refine ⟨hfiled', fun y => ⟨fun hy => ?_, fun hy => ?_⟩⟩
    · exact (mem_elements_put hy).imp_right (hmem y).mp
    · have hget : (found.put (nameOf x) x).get? (nameOf y) = some y := by
        rw [get?_put]
        split_ifs with hname
        · rcases hy with rfl | hy
          · rfl
          · rw [hagree y (hname ▸ hfiled.get?_of_mem ((hmem y).mpr hy))]
        · exact hfiled.get?_of_mem ((hmem y).mpr (hy.resolve_left fun heq => hname (heq ▸ rfl)))
      exact mem_elements_of_get? hget

end Registry

namespace Graph

variable {g : Graph} {i k : ItemId} {p q : PropertyId} {o : ObjectNode} {x y z : Node} {d : Nat}

/-! ### Depths -/

/-- Some path from a node to another passes `d` nodes of a kind. The last node does not count. -/
inductive Passes (g : Graph) (kind : Node → Prop) : Node → Nat → Node → Prop
  | refl (x : Node) : Passes g kind x 0 x
  | count {x y z : Node} {d : Nat} (hx : kind x) (hlink : g.Link x y) (hyz : Passes g kind y d z) :
    Passes g kind x (d + 1) z
  | skip {x y z : Node} {d : Nat} (hx : ¬ kind x) (hlink : g.Link x y) (hyz : Passes g kind y d z) :
    Passes g kind x d z

/-- A node is an object. -/
def IsObject (g : Graph) : Node → Prop
  | .item i => ∃ o, g.object? i = some o
  | .property _ => False

/-- A node is a property. -/
def IsProperty : Node → Prop
  | .item _ => False
  | .property _ => True

/-- A depth is from the offset on and below the limit. A negative limit is no limit. -/
def InSlice (limit offset : Int) (d : Nat) : Prop :=
  offset ≤ d ∧ (limit < 0 ∨ d < limit)

theorem inSlice_iff_of_nonneg {limit offset : Int} (hlimit : ¬ limit < 0) :
    InSlice limit offset d ↔ d < limit.toNat ∧ offset ≤ d := by
  rw [InSlice]
  omega

/-- The objects below a property that some path reaches at a depth of the slice. -/
def objectSlice (g : Graph) (p : PropertyId) (limit offset : Int) : Set ItemId :=
  { k | g.IsObject (.item k) ∧ ∃ d, InSlice limit offset d ∧ g.Passes g.IsObject (.property p) d (.item k) }

/-- The properties that some path from a property reaches at a depth of the slice. The property itself is at depth
zero. -/
def propertySlice (g : Graph) (p : PropertyId) (limit offset : Int) : Set PropertyId :=
  { q | ∃ d, InSlice limit offset d ∧ g.Passes IsProperty (.property p) d (.property q) }

/-- Arrays are transparent. -/
theorem passes_iff_of_encloses {kind : Node → Prop} (harray : ∀ {i e}, g.item i = .array e → ¬ kind (.item i))
    (henc : g.Encloses i k) (hz : ∀ {j e}, z = .item j → g.item j ≠ .array e) :
    g.Passes kind (.item i) d z ↔ g.Passes kind (.item k) d z := by
  induction henc with
  | refl i => rfl
  | @array i e k hi _ ih =>
    rw [← ih]
    refine ⟨fun hpath => ?_, .skip (harray hi) (link_item_item_iff.mpr hi)⟩
    cases hpath with
    | refl => exact absurd hi (hz rfl)
    | count hkind => exact absurd hkind (harray hi)
    | skip _ hlink hyz =>
      rcases link_item_iff.mp hlink with ⟨e', he', rfl⟩ | ⟨o, ho, -⟩
      · obtain rfl := Item.array.inj (hi.symm.trans he')
        exact hyz
      · exact nomatch hi.symm.trans ho

theorem not_isObject_of_array {e : ItemId} (hi : g.item i = .array e) : ¬ g.IsObject (.item i) :=
  fun ⟨_, ho⟩ => nomatch hi.symm.trans (object?_eq_some_iff.mp ho)

/-- What an item leads to that is no array: only objects lead on, and that to their properties. -/
theorem link_of_not_array (hnot : ∀ e, g.item i ≠ .array e) (hlink : g.Link (.item i) y) :
    ∃ o, g.object? i = some o ∧ ∃ p ∈ o.properties.elements, y = .property p := by
  rcases link_item_iff.mp hlink with ⟨e, he, -⟩ | ⟨o, ho, p, hp, rfl⟩
  · exact absurd he (hnot e)
  · exact ⟨o, object?_eq_some_iff.mpr ho, p, hp, rfl⟩

/-- A property does not count on the way to objects. -/
theorem passes_property_object_iff :
    g.Passes g.IsObject (.property p) d (.item k) ↔ g.Passes g.IsObject (.item (g.property p).item) d (.item k) := by
  refine ⟨fun hpath => ?_, .skip id (link_property_iff.mpr rfl)⟩
  cases hpath with
  | count hkind => exact absurd hkind id
  | skip _ hlink hyz => rwa [link_property_iff.mp hlink] at hyz

namespace Sound

variable (hg : g.Sound)

include hg

/-- The first object on the way to an object is the one inside the arrays around an item. Either the way ends there, or
it goes on below a property of that object. -/
theorem passes_object_iff (hi : g.Present (.item i)) (hk : g.IsObject (.item k)) :
    g.Passes g.IsObject (.item i) d (.item k) ↔
      ∃ o, g.object? (g.innermost i) = some o ∧ ((d = 0 ∧ k = g.innermost i) ∨
        ∃ n, d = n + 1 ∧ ∃ p ∈ o.properties.elements, g.Passes g.IsObject (.item (g.property p).item) n (.item k)) := by
  obtain ⟨henc, hnot⟩ := hg.encloses_innermost hi
  rw [passes_iff_of_encloses not_isObject_of_array henc fun heq harray =>
    not_isObject_of_array harray (Node.item.inj heq ▸ hk)]
  constructor
  · intro hpath
    cases hpath with
    | refl => exact ⟨_, hk.choose_spec, .inl ⟨rfl, rfl⟩⟩
    | count hkind hlink hyz =>
      obtain ⟨o, ho, p, hp, rfl⟩ := link_of_not_array hnot hlink
      exact ⟨o, ho, .inr ⟨_, rfl, p, hp, passes_property_object_iff.mp hyz⟩⟩
    | skip hkind hlink hyz =>
      obtain ⟨o, ho, -⟩ := link_of_not_array hnot hlink
      exact absurd ⟨o, ho⟩ hkind
  · rintro ⟨o, ho, ⟨rfl, rfl⟩ | ⟨n, rfl, p, hp, hpath⟩⟩
    · exact .refl _
    · exact .count ⟨o, ho⟩ (link_item_property_iff.mpr ⟨o, ho, hp⟩) (passes_property_object_iff.mpr hpath)

omit hg in
theorem mem_nextProperties_iff :
    q ∈ g.nextProperties p ↔ g.Link (.item (g.innermost (g.property p).item)) (.property q) := by
  rw [link_item_property_iff, nextProperties]
  cases g.object? (g.innermost (g.property p).item) with
  | none => simp
  | some o => simp

/-- A way from a property to a property ends at once, or goes on at a property of the object inside. -/
theorem passes_property_iff (hp : g.Present (.property p)) :
    g.Passes IsProperty (.property p) d (.property q) ↔ (d = 0 ∧ q = p) ∨
      ∃ n, d = n + 1 ∧ ∃ r ∈ g.nextProperties p, g.Passes IsProperty (.property r) n (.property q) := by
  obtain ⟨henc, hnot⟩ := hg.encloses_innermost (hg.present_held hp)
  have hinside : ∀ {n}, g.Passes IsProperty (.item (g.property p).item) n (.property q) ↔
      g.Passes IsProperty (.item (g.innermost (g.property p).item)) n (.property q) :=
    passes_iff_of_encloses (fun _ => id) henc fun heq => nomatch heq
  constructor
  · intro hpath
    cases hpath with
    | refl => exact .inl ⟨rfl, rfl⟩
    | skip hkind => exact absurd trivial hkind
    | count _ hlink hyz =>
      rw [link_property_iff.mp hlink, hinside] at hyz
      cases hyz with
      | count hkind => exact absurd hkind id
      | skip _ hlink hyz =>
        obtain ⟨o, ho, r, hr, rfl⟩ := link_of_not_array hnot hlink
        exact .inr ⟨_, rfl, r, mem_nextProperties_iff.mpr hlink, hyz⟩
  · rintro (⟨rfl, rfl⟩ | ⟨n, rfl, r, hr, hpath⟩)
    · exact .refl _
    · exact .count trivial (link_property_iff.mpr rfl)
        (hinside.mpr (.skip id (mem_nextProperties_iff.mp hr) hpath))

end Sound

/-! ### The walk over objects -/

/-- The objects at or below an item at the depths from the offset on, down to a number of levels. -/
def objectsDown (g : Graph) (levels : Nat) (i : ItemId) (offset : Int) : Set ItemId :=
  { k | g.IsObject (.item k) ∧ ∃ d < levels, offset ≤ d ∧ g.Passes g.IsObject (.item i) d (.item k) }

/-- Without a limit a slice has the objects that a walk gathers when it goes down far enough. -/
theorem objectSlice_of_neg {limit : Int} (hlimit : limit < 0) (p : PropertyId) (offset : Int) :
    g.objectSlice p limit offset = { k | ∃ levels, k ∈ g.objectsDown levels (g.property p).item offset } := by
  ext k
  constructor
  · rintro ⟨hk, d, ⟨hoffset, -⟩, hpath⟩
    exact ⟨d + 1, hk, d, Nat.lt_succ_self d, hoffset, passes_property_object_iff.mp hpath⟩
  · rintro ⟨levels, hk, d, -, hoffset, hpath⟩
    exact ⟨hk, d, ⟨hoffset, .inl hlimit⟩, passes_property_object_iff.mpr hpath⟩

/-- With a limit the walk goes down as far as the limit. -/
theorem objectSlice_of_nonneg {limit : Int} (hlimit : ¬ limit < 0) (p : PropertyId) (offset : Int) :
    g.objectSlice p limit offset = g.objectsDown limit.toNat (g.property p).item offset := by
  ext k
  refine and_congr_right fun _ => exists_congr fun d => ?_
  rw [passes_property_object_iff, inSlice_iff_of_nonneg hlimit, and_assoc]

theorem objectsDown_zero (g : Graph) (i : ItemId) (offset : Int) : g.objectsDown 0 i offset = ∅ :=
  Set.eq_empty_of_forall_notMem fun _ ⟨_, _, hd, _⟩ => Nat.not_lt_zero _ hd

theorem monotone_objectsDown (g : Graph) (i : ItemId) (offset : Int) :
    Monotone fun levels => g.objectsDown levels i offset :=
  fun _ _ hle _ ⟨hk, d, hd, hrest⟩ => ⟨hk, d, hd.trans_le hle, hrest⟩

namespace Sound

variable (hg : g.Sound)

include hg

theorem objectsDown_succ_of_none (hi : g.Present (.item i)) (hobject : g.object? (g.innermost i) = none) (levels : Nat)
    (offset : Int) : g.objectsDown (levels + 1) i offset = ∅ := by
  refine Set.eq_empty_of_forall_notMem fun k ⟨hk, d, _, _, hpath⟩ => ?_
  obtain ⟨o, ho, -⟩ := (hg.passes_object_iff hi hk).mp hpath
  exact nomatch hobject.symm.trans ho

theorem objectsDown_succ (hi : g.Present (.item i)) (hobject : g.object? (g.innermost i) = some o) (levels : Nat)
    (offset : Int) : g.objectsDown (levels + 1) i offset = (if offset ≤ 0 then {g.innermost i} else ∅) ∪
      { k | ∃ p ∈ o.properties.elements, k ∈ g.objectsDown levels (g.property p).item (offset - 1) } := by
  ext k
  constructor
  · rintro ⟨hk, d, hd, hoffset, hpath⟩
    obtain ⟨o', ho', hrest⟩ := (hg.passes_object_iff hi hk).mp hpath
    obtain rfl := Option.some.inj (hobject.symm.trans ho')
    rcases hrest with ⟨rfl, rfl⟩ | ⟨n, rfl, p, hp, hpath⟩
    · rw [if_pos (by omega)]
      exact .inl rfl
    · exact .inr ⟨p, hp, hk, n, by omega, by omega, hpath⟩
  · rintro (hk | ⟨p, hp, hk, n, hn, hoffset, hpath⟩)
    · split_ifs at hk with hoffset
      · obtain rfl := Set.mem_singleton_iff.mp hk
        have hk : g.IsObject (.item (g.innermost i)) := ⟨o, hobject⟩
        exact ⟨hk, 0, by omega, by omega, (hg.passes_object_iff hi hk).mpr ⟨o, hobject, .inl ⟨rfl, rfl⟩⟩⟩
      · exact absurd hk (Set.notMem_empty k)
    · refine ⟨hk, n + 1, by omega, by omega, (hg.passes_object_iff hi hk).mpr ⟨o, hobject, .inr ?_⟩⟩
      exact ⟨n, rfl, p, hp, hpath⟩

/-- The walk gathers the objects at the depths from the offset on, as far down as it goes. -/
theorem collects_objectsDown (levels : Nat) : ∀ (i : ItemId) (offset : Int), g.Present (.item i) →
    g.Collects (g.objectsDown levels i offset) (g.objectsWithin levels i offset) := by
  induction levels with
  | zero =>
    intro i offset _
    rw [objectsDown_zero]
    exact g.collects_empty
  | succ levels ih =>
    intro i offset hi
    rw [objectsWithin]
    cases hobject : g.object? (g.innermost i) with
    | none =>
      rw [hg.objectsDown_succ_of_none hi hobject]
      exact g.collects_empty
    | some o =>
      have hfirst : g.Collects (if offset ≤ 0 then {g.innermost i} else ∅)
          (.ok (if offset ≤ 0 then (∅ : Registry ItemId).insert g.typeName (g.innermost i) else ∅)) := by
        split_ifs
        · exact ⟨(Registry.filed_empty _).put rfl, fun k => List.mem_singleton⟩
        · exact g.collects_empty
      rw [hg.objectsDown_succ hi hobject]
      refine Registry.gathers_foldlM _ _ _ _ (fun _ _ _ => ⟨_, rfl⟩) (fun p hp => ?_) _ _ hfirst
      have hinner : g.Present (.item (g.innermost i)) := lt_of_object? hobject
      exact ih _ _ (hg.present_held (hg.present hinner (link_item_property_iff.mpr ⟨o, hobject, hp⟩)))

/-- **The objects of a slice are gathered.** -/
theorem collects_objectSlice (hp : g.Present (.property p)) (limit offset : Int) :
    g.Collects (g.objectSlice p limit offset) (g.objects p limit offset) := by
  have hheld := hg.present_held hp
  rw [objects, levels]
  split_ifs with hlimit
  · rw [objectSlice_of_neg hlimit]
    exact .of_end (g.monotone_objectsDown _ offset) (fun levels => hg.collects_objectsDown levels _ offset hheld)
      fun levels hlevels => hg.walksEnd.objects offset hp hlevels
  · rw [objectSlice_of_nonneg hlimit]
    exact hg.collects_objectsDown _ _ offset hheld

end Sound

/-! ### The walk over properties -/

/-- The properties at or below a property at the depths from the offset on, down to a number of levels. -/
def propertiesDown (g : Graph) (levels : Nat) (p : PropertyId) (offset : Int) : Set PropertyId :=
  { q | ∃ d < levels, offset ≤ d ∧ g.Passes IsProperty (.property p) d (.property q) }

theorem propertySlice_of_neg {limit : Int} (hlimit : limit < 0) (p : PropertyId) (offset : Int) :
    g.propertySlice p limit offset = { q | ∃ levels, q ∈ g.propertiesDown levels p offset } := by
  ext q
  constructor
  · rintro ⟨d, ⟨hoffset, -⟩, hpath⟩
    exact ⟨d + 1, d, Nat.lt_succ_self d, hoffset, hpath⟩
  · rintro ⟨levels, d, -, hoffset, hpath⟩
    exact ⟨d, ⟨hoffset, .inl hlimit⟩, hpath⟩

theorem propertySlice_of_nonneg {limit : Int} (hlimit : ¬ limit < 0) (p : PropertyId) (offset : Int) :
    g.propertySlice p limit offset = g.propertiesDown limit.toNat p offset := by
  ext q
  refine exists_congr fun d => ?_
  rw [inSlice_iff_of_nonneg hlimit, and_assoc]

theorem propertiesDown_zero (g : Graph) (p : PropertyId) (offset : Int) : g.propertiesDown 0 p offset = ∅ :=
  Set.eq_empty_of_forall_notMem fun _ ⟨_, hd, _⟩ => Nat.not_lt_zero _ hd

theorem monotone_propertiesDown (g : Graph) (p : PropertyId) (offset : Int) :
    Monotone fun levels => g.propertiesDown levels p offset :=
  fun _ _ hle _ ⟨d, hd, hrest⟩ => ⟨d, hd.trans_le hle, hrest⟩

/-- A step of the walk goes to the properties of the object inside, if there is one. -/
theorem propertiesWithin_succ (g : Graph) (levels : Nat) (p : PropertyId) (offset : Int) :
    g.propertiesWithin (levels + 1) p offset = (do
      let nested ← (g.nextProperties p).foldlM
        (fun found q => do
          let below ← g.propertiesWithin levels q (offset - 1)
          (found.registerAll g.propertyName below).mapError
            (.ofDuplicateProperty (g.typeName (g.innermost (g.property p).item))))
        (∅ : Registry PropertyId)
      if offset ≤ 0 then
        (nested.register g.propertyName p).mapError (.ofDuplicateProperty (g.propertyName p))
      else
        return nested) := by
  rw [propertiesWithin, nextProperties]
  cases hobject : g.object? (g.innermost (g.property p).item) with
  | none => rfl
  | some o => rw [typeName_of_object? hobject, Option.map_some, Option.getD_some]

/-- A walk files all properties of a set by name, or fails because two of them have one name. -/
abbrev CollectsProperties (g : Graph) (S : Set PropertyId) : Except ItemError (Registry PropertyId) → Prop :=
  Gathers g.propertyName (fun name e => ∃ owner, e = .duplicatePropertyName owner name) S

namespace Sound

variable (hg : g.Sound)

include hg

theorem present_nextProperties (hp : g.Present (.property p)) (hq : q ∈ g.nextProperties p) :
    g.Present (.property q) :=
  hg.present (hg.present_innermost hp) (mem_nextProperties_iff.mp hq)

theorem propertiesDown_succ (hp : g.Present (.property p)) (levels : Nat) (offset : Int) :
    g.propertiesDown (levels + 1) p offset = (if offset ≤ 0 then {p} else ∅) ∪
      { q | ∃ r ∈ g.nextProperties p, q ∈ g.propertiesDown levels r (offset - 1) } := by
  ext q
  constructor
  · rintro ⟨d, hd, hoffset, hpath⟩
    rcases (hg.passes_property_iff hp).mp hpath with ⟨rfl, rfl⟩ | ⟨n, rfl, r, hr, hpath⟩
    · rw [if_pos (by omega)]
      exact .inl rfl
    · exact .inr ⟨r, hr, n, by omega, by omega, hpath⟩
  · rintro (hq | ⟨r, hr, n, hn, hoffset, hpath⟩)
    · split_ifs at hq with hoffset
      · obtain rfl := Set.mem_singleton_iff.mp hq
        exact ⟨0, by omega, by omega, .refl _⟩
      · exact absurd hq (Set.notMem_empty q)
    · exact ⟨n + 1, by omega, by omega, (hg.passes_property_iff hp).mpr (.inr ⟨n, rfl, r, hr, hpath⟩)⟩

/-- The walk gathers the properties at the depths from the offset on, as far down as it goes. -/
theorem collects_propertiesDown (levels : Nat) : ∀ (p : PropertyId) (offset : Int), g.Present (.property p) →
    g.CollectsProperties (g.propertiesDown levels p offset) (g.propertiesWithin levels p offset) := by
  induction levels with
  | zero =>
    intro p offset _
    rw [propertiesDown_zero]
    exact ⟨Registry.filed_empty _, by simp⟩
  | succ levels ih =>
    intro p offset hp
    have hnested := Registry.gathers_foldlM (E := fun name e => ∃ owner, e = ItemError.duplicatePropertyName owner name)
      (fun r => g.propertiesDown levels r (offset - 1)) (fun r => g.propertiesWithin levels r (offset - 1))
      (fun _ => .ofDuplicateProperty (g.typeName (g.innermost (g.property p).item))) (g.nextProperties p)
      (fun _ _ _ => ⟨_, rfl⟩) (fun r hr => ih r _ (hg.present_nextProperties hp hr)) ∅ ∅ ⟨Registry.filed_empty _, by simp⟩
    rw [Set.empty_union] at hnested
    rw [propertiesWithin_succ, hg.propertiesDown_succ hp]
    refine hnested.bind fun nested hgathered => ?_
    split_ifs
    · exact Registry.gathers_register hgathered fun _ => ⟨_, rfl⟩
    · rw [Set.empty_union]
      exact hgathered

/-- **The properties of a slice are gathered.** -/
theorem collects_propertySlice (hp : g.Present (.property p)) (limit offset : Int) :
    g.CollectsProperties (g.propertySlice p limit offset) (g.slice p limit offset) := by
  rw [slice, levels]
  split_ifs with hlimit
  · rw [propertySlice_of_neg hlimit]
    exact .of_end (g.monotone_propertiesDown p offset) (fun levels => hg.collects_propertiesDown levels p offset hp)
      fun levels hlevels => hg.walksEnd.slice offset hp hlevels
  · rw [propertySlice_of_nonneg hlimit]
    exact hg.collects_propertiesDown _ p offset hp

/-- At depth one there are the properties of the object that a property holds. -/
theorem propertySlice_two_one (hp : g.Present (.property p)) (ho : g.object? (g.property p).item = some o) :
    g.propertySlice p 2 1 = { q | q ∈ o.properties.elements } := by
  have hnext : g.nextProperties p = o.properties.elements := by
    rw [nextProperties, innermost_eq ho, ho, Option.map_some, Option.getD_some]
  ext q
  constructor
  · rintro ⟨d, ⟨hone, htwo⟩, hpath⟩
    obtain ⟨hd, -⟩ | ⟨n, hd, r, hr, hpath⟩ := (hg.passes_property_iff hp).mp hpath
    · omega
    · obtain rfl : n = 0 := by omega
      obtain ⟨-, rfl⟩ | ⟨m, hm, -⟩ := (hg.passes_property_iff (hg.present_nextProperties hp hr)).mp hpath
      · exact hnext ▸ hr
      · omega
  · intro hq
    exact ⟨1, ⟨by omega, by omega⟩, (hg.passes_property_iff hp).mpr (.inr ⟨0, rfl, q, hnext ▸ hq, .refl _⟩)⟩

theorem slice_two_one (hp : g.Present (.property p)) (ho : g.object? (g.property p).item = some o) :
    g.slice p 2 1 = .ok o.properties := by
  have hgathers := hg.collects_propertySlice hp 2 1
  rw [hg.propertySlice_two_one hp ho] at hgathers
  obtain ⟨found, hfound⟩ := hgathers.exists_eq_ok_iff.mpr fun q hq r hr => (hg.filed ho).eq_of_name_eq hq hr
  rw [hfound] at hgathers ⊢
  rw [hgathers.1.eq_of_mem_iff (hg.filed ho) hgathers.2]

end Sound

end Graph

/-! ### All slices -/

/-- **Slices are exact.** In a sound graph the objects and the properties of a slice can be collected if and only if their
names tell them apart, and then they are what is collected. After schemas have been read and joined, however the joins
end, the slice below the root of a schema is what its root object holds. -/
theorem slices_are_exact :
    (∀ (g : Graph) (p : PropertyId) (limit offset : Int), g.Sound → g.Present (.property p) →
      ((∃ found, g.objects p limit offset = .ok found) ↔
        ∀ j ∈ g.objectSlice p limit offset, ∀ k ∈ g.objectSlice p limit offset, g.typeName j = g.typeName k → j = k) ∧
      (∀ found, g.objects p limit offset = .ok found →
        found.Filed g.typeName ∧ ∀ k, k ∈ found.elements ↔ k ∈ g.objectSlice p limit offset) ∧
      ((∃ found, g.slice p limit offset = .ok found) ↔
        ∀ q ∈ g.propertySlice p limit offset, ∀ r ∈ g.propertySlice p limit offset,
          g.propertyName q = g.propertyName r → q = r) ∧
      (∀ found, g.slice p limit offset = .ok found →
        found.Filed g.propertyName ∧ ∀ q, q ∈ found.elements ↔ q ∈ g.propertySlice p limit offset)) ∧
    ∀ (data : List Entries) (g : Graph) (parsed : List Schema) (all roots : Registry Schema) (journal : List Event)
      (result : Except SchemaError (List Schema)) (w : Workspace), Schema.parseEach {} data = .ok (g, parsed) →
      all.Filed Schema.id → (∀ s ∈ all.elements, s ∈ parsed) → (∀ r ∈ roots.elements, r ∈ all.elements) →
      (Lineage.resolve all roots).run.run ⟨g, journal⟩ = (result, w) → ∀ s ∈ all.elements,
        ∃ o, w.graph.object? (w.graph.property s.root).item = some o ∧ w.graph.slice s.root 2 1 = .ok o.properties := by
  refine ⟨fun g p limit offset hg hp => ?_, fun data g parsed all roots journal result w hparse hall hparsed hroots hrun
    s hs => ?_⟩
  · have hobjects := hg.collects_objectSlice hp limit offset
    have hproperties := hg.collects_propertySlice hp limit offset
    refine ⟨hobjects.exists_eq_ok_iff, fun found hfound => ?_, hproperties.exists_eq_ok_iff, fun found hfound => ?_⟩
    · rwa [hfound] at hobjects
    · rwa [hfound] at hproperties
  · have hassembled : Schema.Assembled g parsed.reverse := by
      simpa using Schema.assembled_empty.parseEach hparse
    have hmem : ∀ s ∈ all.elements, s ∈ parsed.reverse := fun s hs => List.mem_reverse.mpr (hparsed s hs)
    have hroofed := hassembled.roofed_resolve (w := ⟨g, journal⟩) hall hmem hroots hrun
    obtain ⟨joined, hjoined, hjoins⟩ := Lineage.exists_joins_of_resolve hall hroots hrun
    have hframed := Lineage.framed_foldlM joined g (fun t ht => (hjoined t ht).mem_elements hroots)
      (hassembled.parses.rooted.subset hmem) hjoins
    have hroot := hframed.rooted.hasRoot s hs
    exact ⟨_, hroot.object, hroofed.sound.slice_two_one hroot.root.property_lt hroot.object⟩

/-- The objects one step below the contract can be collected. Once its equal properties are shared, two of its objects have
one name. The slice below the root of the invoice is what it holds after the join. -/
theorem slices_of_contract_and_invoice :
    let shared := Graph.contractRead.1.dedup Graph.contractRead.2 Schema.sharingLevel
    (∃ found, Graph.contractRead.1.objects Graph.contractRead.2 2 1 = .ok found ∧ found.size = 4 ∧
      ∀ k, k ∈ found.elements ↔ k ∈ Graph.contractRead.1.objectSlice Graph.contractRead.2 2 1) ∧
    (¬ ∀ j ∈ shared.objectSlice Graph.contractRead.2 (-1) 0, ∀ k ∈ shared.objectSlice Graph.contractRead.2 (-1) 0,
      shared.typeName j = shared.typeName k → j = k) ∧
    ∃ schemas w o, (Lineage.resolve Lineage.family Lineage.family).run.run ⟨Lineage.invoice.1, []⟩ = (.ok schemas, w) ∧
      w.graph.object? (w.graph.property Lineage.invoice.2.root).item = some o ∧
      w.graph.slice Lineage.invoice.2.root 2 1 = .ok o.properties := by
  obtain ⟨hslices, hroots⟩ := slices_are_exact
  have hsound : Graph.contractRead.1.Sound :=
    (Schema.planted_parseProperty (.refl _) Graph.parseProperty_contract).1.sound Graph.sound_empty
  have hroot : Graph.contractRead.1.Present (.property Graph.contractRead.2) :=
    show Graph.contractRead.2.index < Graph.contractRead.1.properties.size by decide +kernel
  refine ⟨?_, ?_, ?_⟩
  · have hfound : Graph.contractRead.1.objects Graph.contractRead.2 2 1 =
        .ok ((Graph.contractRead.1.objects Graph.contractRead.2 2 1).toOption.getD default) :=
      eq_ok_of_isSome_toOption (by decide +kernel)
    exact ⟨_, hfound, by decide +kernel, ((hslices _ _ 2 1 hsound hroot).2.1 _ hfound).2⟩
  · rw [← (hslices _ _ (-1) 0 (hsound.dedup hroot) (Graph.present_dedup_iff.mpr hroot)).1]
    exact fun ⟨after, hafter⟩ => Graph.objects_dedup_contract after hafter
  · set run := (Lineage.resolve Lineage.family Lineage.family).run.run ⟨Lineage.invoice.1, []⟩
    have hok : run.1 = .ok (run.1.toOption.getD default) := eq_ok_of_isSome_toOption (by decide +kernel)
    have hparse : Schema.parseEach {} [Lineage.documentData, Lineage.invoiceData] =
        .ok (Lineage.invoice.1, [Lineage.document.2, Lineage.invoice.2]) := by
      simp only [Schema.parseEach, Lineage.parse_document, Lineage.parse_invoice, bind, Except.bind]
      rfl
    obtain ⟨o, ho, hslice⟩ := hroots _ _ _ _ _ [] run.1 run.2 hparse (Registry.filed_ofList _ _) (by decide +kernel)
      (fun _ hr => hr) rfl Lineage.invoice.2 (by decide +kernel)
    exact ⟨_, run.2, o, Prod.ext hok rfl, ho, hslice⟩

end Schemata
