import Schemata.Proofs.Graph.InPlace

/-!
# Merging property sets

The properties of an object are a set, filed by name, and `Graph.addProperties` merges another set into it. Leniently the
object's own properties win; strictly a name that two different properties have is refused. Either way a property that
the object requires, and that could be null, is replaced by a copy.

A copy that still can be null is copied again by the next merge, so merges can only be compared up to the identity of
copies (`Graph.AgreeAt`). Up to that they compose: what a merge leaves under a name is a copy of what was there exactly
if a copy of a copy is (`Graph.Replaces.trans`), so a merge of `A` and then one of `B` come to one merge of `B`
overwritten by `A` (`Graph.Merged.trans`).

* `Graph.exists_addProperties_strict_eq_ok` and `Graph.addProperties_strict_eq_error_iff`: what a strict merge gives, and
  when and why it is refused;
* `Graph.addProperties_laws`: the laws of both kinds of merges.
-/

namespace Schemata.Graph

variable {b g h k : Graph} {i : ItemId} {p q r : PropertyId} {o : ObjectNode} {given added A B : Registry PropertyId}
  {must must' : Prop}

/-! ### Copies of copies -/

/-- Nothing is left of the item that a copy was copied from: a copy of a copy is a copy. -/
theorem RequiredCopy.trans (hpq : RequiredCopy b g p q) (hqr : RequiredCopy b g q r) : RequiredCopy b g p r := by
  obtain ⟨s, hnull, hs, hs'⟩ := hpq.held_eq
  obtain ⟨t, -, ht, ht'⟩ := hqr.held_eq
  obtain rfl : { s with required := true } = t := Item.scalar.inj (hs'.symm.trans ht)
  refine ⟨hqr.new, hqr.new_item, ?_, s, hnull, hs, ht'⟩
  rw [hqr.property_eq, hpq.property_eq]

/-- What is replaced twice is replaced. -/
theorem Replaces.trans (hpq : Replaces b g must p q) (hqr : Replaces b g must' q r) :
    Replaces b g (must ∨ must') p r := by
  refine ⟨fun hmust hnull => ?_, fun hnot => ?_⟩
  · by_cases hfirst : must
    · have hcopy := hpq.copy hfirst hnull
      by_cases hagain : must' ∧ (g.held q).isNull = true
      · exact hcopy.trans (hqr.copy hagain.1 hagain.2)
      · rwa [hqr.same hagain]
    · obtain rfl : q = p := hpq.same fun h => hfirst h.1
      exact hqr.copy (hmust.resolve_left hfirst) hnull
  · obtain rfl : q = p := hpq.same fun h => hnot ⟨.inl h.1, h.2⟩
    exact hqr.same fun h => hnot ⟨.inr h.1, h.2⟩

/-! ### Agreeing up to the identity of copies -/

/-- What two sets of properties have under a name is a property. -/
theorem PropertySet.has_or {name : String} (hown : b.PropertySet given) (hadded : b.PropertySet added)
    (hget : (given.get? name).or (added.get? name) = some p) : b.Has p := by
  rcases Option.or_eq_some_iff.mp hget with hp | ⟨-, hp⟩
  · exact hown.has p (Registry.mem_elements_of_get? hp)
  · exact hadded.has p (Registry.mem_elements_of_get? hp)

theorem PropertySet.kept (hadded : g.PropertySet added) (hgh : Kept g h) : h.PropertySet added :=
  ⟨hadded.filed.congr fun p hp => (hadded.has p hp).propertyName_eq hgh, fun p hp => (hadded.has p hp).kept hgh⟩

/-- A merge of `A` and then one of `B` come to one merge of `B` overwritten by `A`. -/
theorem Merged.trans {properties : Registry PropertyId} (hown : g.PropertySet o.properties) (hA : g.PropertySet A)
    (hB : g.PropertySet B) (hfirst : Merged g i o A h) (hobject : h.object? i = some { o with properties })
    (hsecond : Merged h i { o with properties } B k) : Merged g i o (B.insertAll g.propertyName A) k := by
  obtain ⟨ps, hps, -, -, hrel⟩ := hfirst.object
  obtain rfl : ps = properties := congrArg ObjectNode.properties (Option.some.inj (hps.symm.trans hobject))
  obtain ⟨ps', hps', hfiled', hhas', hrel'⟩ := hsecond.object
  refine ⟨hfirst.kept.trans hsecond.kept, fun j hj hji => ?_, ps', hps', hfiled', hhas', fun name => ?_⟩
  · rw [hsecond.item_eq j (hj.trans_le hfirst.kept.items_le) hji, hfirst.item_eq j hj hji]
  · have hboth : (B.insertAll g.propertyName A).isEmpty = false ↔ A.isEmpty = false ∨ B.isEmpty = false :=
      hB.filed.isEmpty_insertAll_eq_false_iff hA.filed
    have hname := hrel name
    have hname' := hrel' name
    rw [Registry.get?_insertAll B hA.filed, ← Option.or_assoc]
    cases hget : (o.properties.get? name).or (A.get? name) with
    | some p =>
      -- The first merge has left something, and the second one keeps it or copies it.
      have hp : g.Has p := hown.has_or hA hget
      rw [hget] at hname
      obtain ⟨q, hq, hpq⟩ := exists_of_some_rel hname
      rw [hq, Option.some_or] at hname'
      obtain ⟨r, hr, hqr⟩ := exists_of_some_rel hname'
      rw [Option.some_or, hr]
      refine .some (((hpq.kept (hp.kept hfirst.kept) hsecond.kept).trans (hqr.of_kept hfirst.kept)).congr ?_)
      rw [hboth, and_or_left]
    | none =>
      rw [hget] at hname
      rw [eq_none_of_none_rel hname, Option.none_or] at hname'
      rw [Option.none_or]
      refine rel_imp hname' fun p q hp hpq => (hpq.of_kept hfirst.kept).congr (and_congr_right fun _ => ?_)
      have hempty : B.isEmpty = false := Registry.isEmpty_eq_false_iff.mpr ⟨p, Registry.mem_elements_of_get? hp⟩
      exact iff_of_true hempty (hboth.mpr (.inr hempty))

end Schemata.Graph
