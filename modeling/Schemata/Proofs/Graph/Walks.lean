import Schemata.Go.Form
import Schemata.Proofs.Graph.Paths

/-!
# Walks come to an end

The walks over a graph follow its links and carry a bound on the depth. In a sound graph links are well-founded on the
nodes that are there (`Sound.acc`), and the bounds are never reached: with any larger bound a walk does the same
(`Graph.WalksEnd`). So the bounds could as well be left out.

What a walk has still to go down is the level of an item, or the *stage* of a property, where arrays and items do not
count.
-/

namespace Schemata.Graph

open Sharing (Tree)

variable {g h : Graph} {level : ItemId → Nat} {i : ItemId} {p q : PropertyId} {x : Node}

/-- The walks over a graph come to an end before they reach the bound on their depth: links cannot be followed for ever,
and a larger bound changes no result. -/
structure WalksEnd (g : Graph) : Prop where
  acc : ∀ {x : Node}, g.Present x → Acc (fun y x => g.Link x y) x
  tree : ∀ {x : Node} {n : Nat}, g.Present x → linked.bound g ≤ n → Tree.unfold g.children n x = linked.tree g x
  innermost : ∀ {i : ItemId} {n : Nat}, g.Present (.item i) → g.depth ≤ n → g.innermostWithin n i = g.innermost i
  containsObject : ∀ {i : ItemId} {n : Nat}, g.Present (.item i) → g.depth ≤ n →
    g.containsObjectWithin n i = g.containsObject i
  form : ∀ {i : ItemId} {n : Nat}, g.Present (.item i) → g.depth ≤ n → g.formWithin n i = g.form i
  objects : ∀ {p : PropertyId} {n : Nat} (offset : Int), g.Present (.property p) → g.depth ≤ n →
    g.objectsWithin n (g.property p).item offset = g.objects p (-1) offset
  slice : ∀ {p : PropertyId} {n : Nat} (offset : Int), g.Present (.property p) → g.properties.size ≤ n →
    g.propertiesWithin n p offset = g.slice p (-1) offset
  rename : ∀ {i : ItemId} {n : Nat} (m : Mark), g.Present (.item i) → g.depth ≤ n → renameWithin n g i m = g.rename i m

/-! ### Walks over items -/

section Levels

variable (hlevel : ∀ {x : Node}, g.Present x → g.Levelled level x)
  (hpos : ∀ {i : ItemId}, g.Present (.item i) → 0 < level i)

include hlevel

theorem innermostWithin_eq {n m : Nat} (hi : g.Present (.item i)) (hn : level i ≤ n) (hm : level i ≤ m) :
    g.innermostWithin n i = g.innermostWithin m i := by
  obtain ⟨henc, hnot⟩ := innermostWithin_spec n i (hlevel hi) hn
  obtain ⟨henc', hnot'⟩ := innermostWithin_spec m i (hlevel hi) hm
  exact henc.eq_of_not_array hnot henc' hnot'

variable (hpresent : ∀ {x y : Node}, g.Present x → g.Link x y → g.Present y)

include hpos hpresent

theorem containsObjectWithin_eq (n : Nat) : ∀ {m : Nat} {i : ItemId}, g.Present (.item i) → level i ≤ n → level i ≤ m →
    g.containsObjectWithin n i = g.containsObjectWithin m i := by
  induction n with
  | zero => exact fun hi hn => absurd (hpos hi) (by omega)
  | succ n ih =>
    intro m i hi hn hm
    obtain _ | m := m
    · exact absurd (hpos hi) (by omega)
    rw [containsObjectWithin, containsObjectWithin]
    cases hitem : g.item i with
    | scalar s => rfl
    | object o => rfl
    | array e =>
      have hlt := (hlevel hi).element .refl hitem
      exact ih (hpresent hi (link_item_item_iff.mpr hitem)) (by omega) (by omega)

theorem formWithin_eq (n : Nat) : ∀ {m : Nat} {i : ItemId}, g.Present (.item i) → level i ≤ n → level i ≤ m →
    g.formWithin n i = g.formWithin m i := by
  induction n with
  | zero => exact fun hi hn => absurd (hpos hi) (by omega)
  | succ n ih =>
    intro m i hi hn hm
    obtain _ | m := m
    · exact absurd (hpos hi) (by omega)
    rw [formWithin, formWithin]
    cases hitem : g.item i with
    | scalar s => rfl
    | object o => rfl
    | array e =>
      have hlt := (hlevel hi).element .refl hitem
      exact congrArg Go.Form.list (ih (hpresent hi (link_item_item_iff.mpr hitem)) (by omega) (by omega))

theorem objectsWithin_eq (n : Nat) : ∀ {m : Nat} {i : ItemId} (offset : Int), g.Present (.item i) → level i ≤ n →
    level i ≤ m → g.objectsWithin n i offset = g.objectsWithin m i offset := by
  induction n with
  | zero => exact fun _ hi hn => absurd (hpos hi) (by omega)
  | succ n ih =>
    intro m i offset hi hn hm
    obtain _ | m := m
    · exact absurd (hpos hi) (by omega)
    obtain ⟨henc, -⟩ := innermostWithin_spec g.depth i (hlevel hi) ((hlevel hi).le .refl)
    rw [objectsWithin, objectsWithin]
    cases hobject : g.object? (g.innermost i) with
    | none => rfl
    | some o =>
      refine foldlM_congr _ _ fun found p hp => ?_
      have hlink : g.Link (.item (g.innermost i)) (.property p) := link_item_property_iff.mpr ⟨o, hobject, hp⟩
      have hinner : g.Present (.item (g.innermost i)) := lt_of_object? hobject
      have hheld : g.Present (.item (g.property p).item) := hpresent (hpresent hinner hlink) (link_property_iff.mpr rfl)
      have hle : level (g.innermost i) ≤ level i := henc.level_le (hlevel hi)
      have hlt := (hlevel hinner).held .refl hlink
      rw [ih (m := m) (offset - 1) hheld (by omega) (by omega)]

omit hlevel hpos hpresent in
/-- What one step below an object does with either depth, all steps do. -/
theorem foldl_renameWithin_eq {n k : Nat} {S : Set ItemId}
    (hstep : ∀ {h : Graph} {i : ItemId} (m : Mark), Moved g [] h → i ∈ S → renameWithin n h i m = renameWithin k h i m)
    (ps : List PropertyId) : ∀ (h : Graph) (m : Mark), Moved g [] h → (∀ p ∈ ps, (g.property p).item ∈ S) →
      ps.foldl (fun (h, m) p => renameWithin n (h.followMark p m) (h.property p).item m) (h, m) =
        ps.foldl (fun (h, m) p => renameWithin k (h.followMark p m) (h.property p).item m) (h, m) := by
  induction ps with
  | nil => exact fun _ _ _ _ => rfl
  | cons p ps ih =>
    intro h m hmoved hps
    have hitem : (h.property p).item = (g.property p).item := by
      rw [hmoved.held_eq, lead_of_forall_ne (by simp)]
    have hfollowed : Moved g [] (h.followMark p m) := hmoved.setMark p _
    have hfirst : renameWithin n (h.followMark p m) (h.property p).item m =
        renameWithin k (h.followMark p m) (h.property p).item m := by
      rw [hitem, hstep m hfollowed (hps p (by simp))]
    rw [List.foldl_cons, List.foldl_cons]
    simp only [hfirst]
    exact ih _ _ (hfollowed.renameWithin k) fun q hq => hps q (by simp [hq])

/-- A rename changes no links, so it goes down the same levels however far it has come. -/
theorem renameWithin_eq (n : Nat) : ∀ {k : Nat} {h : Graph} {i : ItemId} (m : Mark), Moved g [] h →
    g.Present (.item i) → level i ≤ n → level i ≤ k → renameWithin n h i m = renameWithin k h i m := by
  induction n with
  | zero => exact fun _ _ hi hn => absurd (hpos hi) (by omega)
  | succ n ih =>
    intro k h i m hmoved hi hn hk
    obtain _ | k := k
    · exact absurd (hpos hi) (by omega)
    rw [renameWithin, renameWithin]
    cases hitem : h.item i with
    | scalar s => rfl
    | array e =>
      have harray := hmoved.array_iff.mp hitem
      have hlt := (hlevel hi).element .refl harray
      exact ih m hmoved (hpresent hi (link_item_item_iff.mpr harray)) (by omega) (by omega)
    | object o =>
      obtain ⟨c, hc, hproperties, -⟩ := hmoved.exists_object? (object?_eq_some_iff.mpr hitem)
      have hbelow : ∀ p ∈ o.properties.elements,
          (g.property p).item ∈ { j | g.Present (.item j) ∧ level j < level i } := by
        intro p hp
        have hlink : g.Link (.item i) (.property p) := link_item_property_iff.mpr ⟨c, hc, hproperties ▸ hp⟩
        exact ⟨hpresent (hpresent hi hlink) (link_property_iff.mpr rfl), (hlevel hi).held .refl hlink⟩
      cases hname : m.rename? o.typeName with
      | none => simp only [hname]
      | some renamed =>
        simp only [hname]
        refine foldl_renameWithin_eq (fun m hmoved hj => ?_) _ _ _
          (hmoved.setName (object?_eq_some_iff.mpr hitem) _) hbelow
        have hlt := hj.2
        exact ih m hmoved hj.1 (by omega) (by omega)

end Levels

/-! ### Walks over properties -/

/-- The properties that a property leads to next, through arrays and an object. -/
def nextProperties (g : Graph) (p : PropertyId) : List PropertyId :=
  ((g.object? (g.innermost (g.property p).item)).map fun o => o.properties.elements).getD []

theorem propertiesWithin_eq {stage : PropertyId → Nat} {S : Set PropertyId}
    (hmem : ∀ {p q : PropertyId}, p ∈ S → q ∈ g.nextProperties p → q ∈ S ∧ stage q < stage p)
    (hpos : ∀ {p : PropertyId}, p ∈ S → 0 < stage p) (n : Nat) : ∀ {m : Nat} {p : PropertyId} (offset : Int), p ∈ S →
      stage p ≤ n → stage p ≤ m → g.propertiesWithin n p offset = g.propertiesWithin m p offset := by
  induction n with
  | zero => exact fun _ hp hn => absurd (hpos hp) (by omega)
  | succ n ih =>
    intro m p offset hp hn hm
    obtain _ | m := m
    · exact absurd (hpos hp) (by omega)
    rw [propertiesWithin, propertiesWithin]
    cases hobject : g.object? (g.innermost (g.property p).item) with
    | none => rfl
    | some o =>
      have hnext : ∀ q ∈ o.properties.elements, q ∈ g.nextProperties p := by
        intro q hq
        rw [nextProperties, hobject]
        exact hq
      refine congrArg (· >>= _) (foldlM_congr _ _ fun found q hq => ?_)
      obtain ⟨hqS, hlt⟩ := hmem hp (hnext q hq)
      rw [ih (m := m) (offset - 1) hqS (by omega) (by omega)]

/-! ### Sound graphs -/

namespace Sound

variable (hg : g.Sound)

include hg

/-- Links cannot be followed for ever. -/
theorem acc (hx : g.Present x) : Acc (fun y x => g.Link x y) x := by
  obtain ⟨rank, hgraded⟩ := hg.exists_graded
  induction hrank : rank x using Nat.strong_induction_on generalizing x with
  | _ n ih => exact ⟨x, fun y hlink => ih (rank y) (hrank ▸ hgraded.lt hx hlink) (hg.present hx hlink) rfl⟩

/-- The properties of a sound graph have stages, no more of them than properties. -/
theorem exists_stage : ∃ stage : PropertyId → Nat, (∀ {p}, g.Present (.property p) →
      0 < stage p ∧ stage p ≤ g.properties.size) ∧
    ∀ {p q}, g.Present (.property p) → q ∈ g.nextProperties p → g.Present (.property q) ∧ stage q < stage p := by
  obtain ⟨rank, hgraded⟩ := hg.exists_graded
  have hdown : ∀ {p q}, g.Present (.property p) → q ∈ g.nextProperties p →
      g.Present (.property q) ∧ rank (.property q) < rank (.property p) := by
    intro p q hp hq
    cases hobject : g.object? (g.innermost (g.property p).item) with
    | none =>
      rw [nextProperties, hobject] at hq
      exact absurd hq List.not_mem_nil
    | some o =>
      rw [nextProperties, hobject] at hq
      have hlink : g.Link (.item (g.innermost (g.property p).item)) (.property q) :=
        link_item_property_iff.mpr ⟨o, hobject, hq⟩
      have hle : ∀ {y}, g.Leads (.property p) y → g.Present y ∧ rank y ≤ rank (.property p) := by
        intro y hy
        induction hy with
        | refl => exact ⟨hp, le_rfl⟩
        | tail _ hlink ih => exact ⟨hg.present ih.1 hlink, (hgraded.lt ih.1 hlink).le.trans ih.2⟩
      obtain ⟨hinner, hrank⟩ := hle (hg.leads_innermost hp)
      exact ⟨hg.present hinner hlink, (hgraded.lt hinner hlink).trans_le hrank⟩
  have hacyclic : ∀ p ∈ { p | g.Present (.property p) }, ¬ Relation.TransGen (fun p q => q ∈ g.nextProperties p) p p := by
    intro p hp hcycle
    have hlower : ∀ {q}, Relation.TransGen (fun p q => q ∈ g.nextProperties p) p q →
        g.Present (.property q) ∧ rank (.property q) < rank (.property p) := by
      intro q hq
      induction hq with
      | single hq => exact hdown hp hq
      | tail _ hq ih => exact ⟨(hdown ih.1 hq).1, (hdown ih.1 hq).2.trans ih.2⟩
    exact Nat.lt_irrefl _ (hlower hcycle).2
  have hnodes : ∀ {p}, g.Present (.property p) → p ∈ (Finset.range g.properties.size).image PropertyId.mk :=
    fun {p} hp => Finset.mem_image.mpr ⟨p.index, Finset.mem_range.mpr hp, rfl⟩
  obtain ⟨stage, hstage, hpos⟩ := Sharing.exists_graded hacyclic (fun hp hq => (hdown hp hq).1)
    (fun hp _ => hnodes hp) (Finset.card_image_le.trans (Finset.card_range _).le)
  exact ⟨stage, fun hp => ⟨hpos _ (hnodes hp), hstage.le hp⟩, fun hp hq => ⟨(hdown hp hq).1, hstage.lt hp hq⟩⟩

/-- **Walks over a sound graph come to an end.** -/
theorem walksEnd : g.WalksEnd := by
  obtain ⟨level, hpos, hlevel⟩ := hg.exists_levelled
  obtain ⟨stage, hbounds, hnext⟩ := hg.exists_stage
  obtain ⟨rank, hgraded⟩ := hg.exists_graded
  have hle : ∀ {i}, g.Present (.item i) → level i ≤ g.depth := fun hi => (hlevel hi).le .refl
  refine ⟨hg.acc, fun hx hn => ?_, fun hi hn => ?_, fun hi hn => ?_, fun hi hn => ?_, fun {p} n offset hp hn => ?_,
    fun offset hp hn => ?_, fun m hi hn => ?_⟩
  · exact hgraded.unfold_eq_unfold _ hx ((hgraded.le hx).trans hn) (hgraded.le hx)
  · exact innermostWithin_eq hlevel hi ((hle hi).trans hn) (hle hi)
  · exact containsObjectWithin_eq hlevel hpos hg.present _ hi ((hle hi).trans hn) (hle hi)
  · exact formWithin_eq hlevel hpos hg.present _ hi ((hle hi).trans hn) (hle hi)
  · have hi := hg.present_held hp
    exact objectsWithin_eq hlevel hpos hg.present _ offset hi ((hle hi).trans hn) (hle hi)
  · exact propertiesWithin_eq (S := { p | g.Present (.property p) }) hnext (fun hp => (hbounds hp).1) _ offset hp
      ((hbounds hp).2.trans hn) (hbounds hp).2
  · exact renameWithin_eq hlevel hpos hg.present _ m (.refl g) hi ((hle hi).trans hn) (hle hi)

end Sound

end Schemata.Graph
