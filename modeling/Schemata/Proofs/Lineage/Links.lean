import Schemata.Proofs.Lineage.JoinOrder
import Schemata.Proofs.Order.Stack

/-!
# The links between schemas

`Lineage.order` asks for the schemas that extend one, and for those that one extends. Here the links between the found
schemas are drawn one after the other instead, one for each mention of a base: a schema that lists a base twice is linked
to it twice. The search with stacks over these links comes to the same order, or refuses the same schema
(`toposort_links`).
-/

namespace Schemata.Lineage

variable {all roots : Registry Schema} {found : List Schema} {s : Schema}

/-- The links from bases to the schemas that extend them, in the order in which they are drawn: by the identifier of the
schema, and then in the order in which it lists its bases. -/
def links (found : List Schema) : List (Schema × Schema) :=
  (Registry.ofList Schema.id found).elements.flatMap fun s => (extended found s).map fun base => (base, s)

/-- If each element stands for copies of itself only, those with copies are left once the copies are dropped. -/
theorem eraseDups_flatMap {α : Type} [DecidableEq α] (f : α → List α) (hf : ∀ x, ∀ y ∈ f x, y = x) (xs : List α)
    (hxs : xs.Nodup) : (xs.flatMap f).eraseDups = xs.filter fun x => !(f x).isEmpty := by
  induction xs with
  | nil => rfl
  | cons x xs ih =>
    obtain ⟨hx, hxs⟩ := List.nodup_cons.mp hxs
    have hothers : (xs.flatMap f).removeAll (f x) = xs.flatMap f := by
      refine List.filter_eq_self.mpr fun y hy => ?_
      obtain ⟨z, hz, hyz⟩ := List.mem_flatMap.mp hy
      simp only [List.elem_eq_mem, Bool.not_eq_true', decide_eq_false_iff_not]
      exact fun hyx => hx (hf x y hyx ▸ hf z y hyz ▸ hz)
    have hcopies : (f x).eraseDups = if (f x).isEmpty then [] else [x] := by
      cases hcopies : f x with
      | nil => rfl
      | cons y ys =>
        have hall : ∀ z ∈ y :: ys, z = x := fun z hz => hf x z (hcopies ▸ hz)
        obtain rfl := hall y List.mem_cons_self
        have hnone : (ys.filter fun z => !z == y) = [] :=
          List.filter_eq_nil_iff.mpr fun z hz => by simp [hall z (List.mem_cons_of_mem _ hz)]
        rw [List.eraseDups_cons, hnone]
        rfl
    rw [List.flatMap_cons, List.eraseDups_append, hothers, ih hxs, hcopies, List.filter_cons]
    cases (f x).isEmpty <;> rfl

/-- If one element stands for anything, it is all that is left. -/
theorem flatMap_eq_of_mem {α β : Type} {f : α → List β} {x : α} {xs : List α} (hxs : xs.Nodup) (hx : x ∈ xs)
    (hf : ∀ y, y ≠ x → f y = []) : xs.flatMap f = f x := by
  induction xs with
  | nil => cases hx
  | cons y xs ih =>
    obtain ⟨hy, hxs⟩ := List.nodup_cons.mp hxs
    rw [List.flatMap_cons]
    rcases List.mem_cons.mp hx with rfl | hx
    · rw [List.flatMap_eq_nil_iff.mpr fun z hz => hf z fun h => hy (h ▸ hz), List.append_nil]
    · rw [hf y fun h => hy (h ▸ hx), List.nil_append, ih hxs hx]

section Links

variable (hfound : (found.map Schema.id).Nodup)

include hfound

/-- The links to a schema come from those that it extends. -/
theorem reverse_behind_links (hs : s ∈ found) : (Order.behind (links found) s).reverse = extended found s := by
  rw [Order.reverse_behind, links, List.filter_flatMap, List.map_flatMap,
    flatMap_eq_of_mem (Registry.filed_ofList Schema.id found).nodup_elements
      ((Registry.mem_elements_ofList hfound).mpr hs) fun t ht => ?_]
  · simp [List.filter_map, Function.comp_def]
  · simp [List.filter_map, Function.comp_def, ht]

/-- The links from a schema lead to those that extend it, again for each further mention. -/
theorem eraseDups_reverse_ahead_links (hs : s ∈ found) :
    (Order.ahead (links found) s).reverse.eraseDups = extending found s := by
  have hcopies : (Order.ahead (links found) s).reverse =
      (Registry.ofList Schema.id found).elements.flatMap fun t => ((extended found t).filter (· = s)).map fun _ => t := by
    rw [Order.reverse_ahead, links, List.filter_flatMap, List.map_flatMap]
    congr 1
    funext t
    rw [List.filter_map, List.map_map]
    rfl
  rw [hcopies, eraseDups_flatMap _ (fun t u hu => ?_) _ (Registry.filed_ofList Schema.id found).nodup_elements, extending]
  · refine List.filter_congr fun t _ => ?_
    rw [Bool.eq_iff_iff, Bool.not_eq_true', List.isEmpty_eq_false_iff_exists_mem, List.contains_iff_mem]
    simp only [List.mem_map, List.mem_filter, decide_eq_true_eq, mem_extended hfound]
    constructor
    · rintro ⟨-, u, ⟨⟨-, hu⟩, rfl⟩, -⟩
      exact hu
    · exact fun h => ⟨t, s, ⟨⟨hs, h⟩, rfl⟩, rfl⟩
  · obtain ⟨-, -, rfl⟩ := List.mem_map.mp hu
    rfl

/-- The search with stacks over the links comes to what the search by recursion comes to. -/
theorem toposort_links :
    Order.toposort (links found) found = Order.predecessorsFirst (extending found) (extended found) found :=
  Order.toposort_eq (fun _ _ _ ht => ((mem_extending hfound).mp ht).1)
    (fun _ hs => eraseDups_reverse_ahead_links hfound hs) fun _ hs => reverse_behind_links hfound hs

end Links

/-- **The join order with stacks.** Once the schemas are found, the order in which they are joined, or the cycle that is
reported, is what the search with stacks comes to over the links that are drawn between them. -/
theorem toposort_of_discover (hall : all.Filed Schema.id) (hroots : ∀ r ∈ roots.elements, r ∈ all.elements)
    (hdiscover : discover all roots = .ok found) :
    (Order.toposort (links found) found).mapError (fun s => .cyclicInheritance s.id) = order all roots := by
  have hright := right_discover hall hroots
  rw [hdiscover] at hright
  rw [toposort_links hright.nodup, order, hdiscover]
  rfl

end Schemata.Lineage
