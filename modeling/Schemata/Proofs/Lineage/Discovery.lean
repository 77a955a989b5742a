import Mathlib.Data.List.Flatten
import Mathlib.Logic.Relation
import Schemata.Lineage
import Schemata.Proofs.Registry

/-!
# The schemas that schemas extend

`Lineage.discover` works through a list of pending schemas that grows while it is worked through. `Discovers` is that
work without a bound on the steps. It always comes to an end, and within the bound that `discover` gives it
(`discovers_discover`), because a schema makes its bases pending only once.

What it comes to is said in terms of `Extends`, from a schema to the given schemas that it extends: all that can be
reached from the roots, or a base that is not given (`right_discover`).
-/

namespace Schemata.Lineage

variable {all roots : Registry Schema} {found pending : List Schema} {s t : Schema}

/-- A schema extends another that is given. -/
def Extends (all : Registry Schema) (s t : Schema) : Prop :=
  ∃ base ∈ s.bases, all.get? base = some t

/-- A schema extends one that is not given. -/
def Lacks (all : Registry Schema) (s : Schema) (base : String) : Prop :=
  base ∈ s.bases ∧ all.get? base = none

/-- A schema is one of the roots, or one that they extend, directly or through others. -/
def Reachable (all roots : Registry Schema) (s : Schema) : Prop :=
  ∃ root ∈ roots.elements, Relation.ReflTransGen (Extends all) root s

theorem reachable_of_mem (h : s ∈ roots.elements) : Reachable all roots s :=
  ⟨s, h, .refl⟩

theorem Reachable.extends (h : Reachable all roots s) (hst : Extends all s t) : Reachable all roots t := by
  obtain ⟨root, hroot, hpath⟩ := h
  exact ⟨root, hroot, hpath.tail hst⟩

theorem Extends.mem_elements (h : Extends all s t) : t ∈ all.elements := by
  obtain ⟨base, -, hget⟩ := h
  exact Registry.mem_elements_of_get? hget

/-- What the roots extend is given if the roots are. -/
theorem Reachable.mem_elements (h : Reachable all roots s) (hroots : ∀ r ∈ roots.elements, r ∈ all.elements) :
    s ∈ all.elements := by
  obtain ⟨root, hroot, hpath⟩ := h
  cases hpath with
  | refl => exact hroots s hroot
  | tail _ hlast => exact hlast.mem_elements

/-! ### Bases -/

theorem lacks_of_basesIn_eq_error {e : SchemaError} (h : basesIn all s = .error e) :
    ∃ base, e = .unknownBase s.id base ∧ Lacks all s base := by
  rw [basesIn] at h
  split at h
  · rename_i base hfind
    obtain rfl := Except.error.inj h
    refine ⟨base, rfl, by simpa using List.mem_of_find?_eq_some hfind, ?_⟩
    simpa [Registry.contains] using List.find?_some hfind
  · cases h

theorem basesIn_eq_ok {bases : List Schema} (h : basesIn all s = .ok bases) :
    bases = s.bases.filterMap all.get? ∧ ∀ base, ¬ Lacks all s base := by
  rw [basesIn] at h
  split at h
  · cases h
  · rename_i hfind
    obtain rfl := Except.ok.inj h
    refine ⟨rfl, fun base ⟨hbase, hget⟩ => ?_⟩
    have := List.find?_eq_none.mp hfind base (by simpa using hbase)
    simp [Registry.contains, hget] at this

theorem mem_filterMap_bases : t ∈ s.bases.filterMap all.get? ↔ Extends all s t := by
  rw [List.mem_filterMap]
  rfl

theorem holds_iff {id : String} : holds found id = true ↔ ∃ s ∈ found, s.id = id := by
  simp [holds]

/-! ### The search comes to an end -/

/-- The search for the schemas that the pending schemas extend, for as many steps as it takes. -/
inductive Discovers (all : Registry Schema) :
    (found pending : List Schema) → Except SchemaError (List Schema) → Prop where
  /-- Nothing is pending. -/
  | done (found : List Schema) : Discovers all found [] (.ok found.reverse)
  /-- A schema is found already. -/
  | known {found pending : List Schema} {s : Schema} {result : Except SchemaError (List Schema)}
    (hknown : holds found s.id = true) (hrest : Discovers all found pending result) :
    Discovers all found (s :: pending) result
  /-- A schema extends one that is not given. -/
  | fails {found pending : List Schema} {s : Schema} {e : SchemaError} (hnew : holds found s.id = false)
    (hbases : basesIn all s = .error e) : Discovers all found (s :: pending) (.error e)
  /-- A schema is found, and its bases become pending. -/
  | enters {found pending bases : List Schema} {s : Schema} {result : Except SchemaError (List Schema)}
    (hnew : holds found s.id = false) (hbases : basesIn all s = .ok bases)
    (hrest : Discovers all (s :: found) (bases ++ pending) result) : Discovers all found (s :: pending) result

/-- The mentions of bases by schemas that are not found yet. -/
def unread (schemas found : List Schema) : List String :=
  (schemas.filter fun s => !holds found s.id).flatMap Schema.bases

/-- Once a schema is found, its mentions of bases are read. -/
theorem length_unread_cons (schemas : List Schema) (hs : s ∈ schemas) (hnew : holds found s.id = false) :
    (unread schemas (s :: found)).length + s.bases.length ≤ (unread schemas found).length := by
  have hsub : ∀ schemas : List Schema, (unread schemas (s :: found)).length ≤ (unread schemas found).length := by
    intro schemas
    refine ((List.monotone_filter_right schemas fun t ht => ?_).flatMap Schema.bases).length_le
    simp only [holds, List.any_cons, Bool.not_eq_true', Bool.or_eq_false_iff] at ht ⊢
    exact ht.2
  obtain ⟨front, back, rfl⟩ := List.append_of_mem hs
  have hfront := hsub front
  have hback := hsub back
  have hself : holds (s :: found) s.id = true := by simp [holds]
  simp only [unread, List.filter_append, List.flatMap_append, List.length_append, List.filter_cons, hself, hnew,
    Bool.not_true, Bool.not_false, if_true, Bool.false_eq_true, if_false, List.flatMap_cons] at hfront hback ⊢
  omega

/-- The steps suffice if there is one for every pending schema and one for every mention of a base that is still
to be read. -/
theorem discovers_discoverWithin (schemas : List Schema) (hall : ∀ t ∈ all.elements, t ∈ schemas) (steps : Nat) :
    ∀ found pending : List Schema, (∀ t ∈ pending, t ∈ schemas) →
      pending.length + (unread schemas found).length ≤ steps →
      Discovers all found pending (discoverWithin all steps found pending) := by
  induction steps with
  | zero =>
    intro found pending _ hsteps
    obtain rfl : pending = [] := List.length_eq_zero_iff.mp (by omega)
    exact .done found
  | succ steps ih =>
    intro found pending hpending hsteps
    cases pending with
    | nil => exact .done found
    | cons s pending =>
      have hs : s ∈ schemas := hpending s (by simp)
      have hrest : ∀ t ∈ pending, t ∈ schemas := fun t ht => hpending t (by simp [ht])
      rw [List.length_cons] at hsteps
      rw [discoverWithin]
      split_ifs with hknown
      · exact .known hknown (ih found pending hrest (by omega))
      · have hnew : holds found s.id = false := by simpa using hknown
        cases hbases : basesIn all s with
        | error e => exact .fails hnew hbases
        | ok bases =>
          refine .enters hnew hbases (ih (s :: found) (bases ++ pending) ?_ ?_)
          · intro t ht
            obtain ht | ht := List.mem_append.mp ht
            · rw [(basesIn_eq_ok hbases).1, mem_filterMap_bases] at ht
              exact hall t ht.mem_elements
            · exact hrest t ht
          · -- The bases become pending, but their mentions no longer count.
            have hread := length_unread_cons schemas hs hnew
            have hlength : bases.length ≤ s.bases.length := by
              rw [(basesIn_eq_ok hbases).1]
              exact List.length_filterMap_le _ _
            rw [List.length_append]
            omega

/-- The search comes to an end within the steps it is given, whatever schemas extend one another. -/
theorem discovers_discover (all roots : Registry Schema) :
    Discovers all [] roots.elements (discover all roots) := by
  refine discovers_discoverWithin (all.elements ++ roots.elements) (by simp +contextual) _ [] roots.elements
    (by simp +contextual) ?_
  have hunread : unread (all.elements ++ roots.elements) [] =
      (all.elements ++ roots.elements).flatMap Schema.bases := by
    rw [unread, List.filter_eq_self.mpr]
    exact fun t _ => rfl
  rw [hunread, mentions, Registry.size, Registry.elements, List.length_map]

/-! ### What the search comes to -/

/-- How far a search has come: what is found is reachable and lacks no base, and what it extends is found or
pending. -/
structure Explored (all roots : Registry Schema) (found pending : List Schema) : Prop where
  /-- Nothing else is found. -/
  reachable_found : ∀ s ∈ found, Reachable all roots s
  /-- Nothing else is pending. -/
  reachable_pending : ∀ s ∈ pending, Reachable all roots s
  /-- No base of a found schema is missing. -/
  complete : ∀ s ∈ found, ∀ base, ¬ Lacks all s base
  /-- The bases of a found schema are not forgotten. -/
  closed : ∀ s ∈ found, ∀ t, Extends all s t → t ∈ found ∨ t ∈ pending
  /-- The roots are not forgotten. -/
  roots_mem : ∀ s ∈ roots.elements, s ∈ found ∨ s ∈ pending
  /-- Nothing is found twice. -/
  nodup : (found.map Schema.id).Nodup

theorem explored_start (all roots : Registry Schema) : Explored all roots [] roots.elements where
  reachable_found := by simp
  reachable_pending _ hs := reachable_of_mem hs
  complete := by simp
  closed := by simp
  roots_mem _ hs := .inr hs
  nodup := List.nodup_nil

namespace Explored

theorem known (h : Explored all roots found (s :: pending)) (hs : s ∈ found) : Explored all roots found pending where
  reachable_found := h.reachable_found
  reachable_pending t ht := h.reachable_pending t (by simp [ht])
  complete := h.complete
  closed t ht u htu := by
    rcases h.closed t ht u htu with hu | hu
    · exact .inl hu
    · rcases List.mem_cons.mp hu with rfl | hu
      · exact .inl hs
      · exact .inr hu
  roots_mem t ht := by
    rcases h.roots_mem t ht with ht | ht
    · exact .inl ht
    · rcases List.mem_cons.mp ht with rfl | ht
      · exact .inl hs
      · exact .inr ht
  nodup := h.nodup

theorem enters {bases : List Schema} (h : Explored all roots found (s :: pending))
    (hnew : holds found s.id = false) (hbases : basesIn all s = .ok bases) :
    Explored all roots (s :: found) (bases ++ pending) := by
  obtain ⟨rfl, hcomplete⟩ := basesIn_eq_ok hbases
  have hs : Reachable all roots s := h.reachable_pending s (by simp)
  refine ⟨?_, ?_, ?_, ?_, ?_, ?_⟩
  · rintro t (_ | ⟨_, ht⟩)
    · exact hs
    · exact h.reachable_found t ht
  · intro t ht
    rcases List.mem_append.mp ht with ht | ht
    · exact hs.extends (mem_filterMap_bases.mp ht)
    · exact h.reachable_pending t (by simp [ht])
  · rintro t (_ | ⟨_, ht⟩)
    · exact hcomplete
    · exact h.complete t ht
  · rintro t (_ | ⟨_, ht⟩) u htu
    · exact .inr (List.mem_append_left _ (mem_filterMap_bases.mpr htu))
    · have := h.closed t ht u htu
      simp only [List.mem_cons, List.mem_append] at this ⊢
      tauto
  · intro t ht
    have := h.roots_mem t ht
    simp only [List.mem_cons, List.mem_append] at this ⊢
    tauto
  · rw [List.map_cons, List.nodup_cons]
    refine ⟨fun hmem => ?_, h.nodup⟩
    obtain ⟨t, ht, hid⟩ := List.mem_map.mp hmem
    rw [holds_iff.mpr ⟨t, ht, hid⟩] at hnew
    cases hnew

/-- When nothing is pending, everything reachable is found. -/
theorem mem_iff (h : Explored all roots found []) : s ∈ found ↔ Reachable all roots s := by
  refine ⟨h.reachable_found s, ?_⟩
  rintro ⟨root, hroot, hpath⟩
  induction hpath with
  | refl => simpa using h.roots_mem root hroot
  | tail _ hlast ih => simpa using h.closed _ ih _ hlast

end Explored

/-- The schemas that a list has: each reachable one once, and none of them lacks a base. -/
structure Lists (all roots : Registry Schema) (schemas : List Schema) : Prop where
  /-- No identifier is there twice. -/
  nodup : (schemas.map Schema.id).Nodup
  /-- Exactly the reachable schemas are there. -/
  mem_iff : ∀ s, s ∈ schemas ↔ Reachable all roots s
  /-- No base is missing. -/
  complete : ∀ s, Reachable all roots s → ∀ base, ¬ Lacks all s base

/-- A search is right if it lists the reachable schemas, or reports one of them and a base that it lacks. -/
def Right (all roots : Registry Schema) : Except SchemaError (List Schema) → Prop
  | .ok schemas => Lists all roots schemas
  | .error e => ∃ s base, e = .unknownBase s.id base ∧ Reachable all roots s ∧ Lacks all s base

theorem Discovers.right {result : Except SchemaError (List Schema)} (hall : all.Filed Schema.id)
    (hroots : ∀ r ∈ roots.elements, r ∈ all.elements) (h : Discovers all found pending result)
    (hexplored : Explored all roots found pending) : Right all roots result := by
  induction h with
  | done found =>
    refine ⟨?_, fun s => ?_, fun s hs => hexplored.complete s (hexplored.mem_iff.mpr hs)⟩
    · rw [List.map_reverse, List.nodup_reverse]
      exact hexplored.nodup
    · rw [List.mem_reverse, hexplored.mem_iff]
  | @known found pending s result hknown _ ih =>
    -- Identifiers tell given schemas apart, so the schema itself is found.
    obtain ⟨t, ht, hid⟩ := holds_iff.mp hknown
    have hts : t = s := hall.eq_of_name_eq ((hexplored.reachable_found t ht).mem_elements hroots)
      ((hexplored.reachable_pending s (by simp)).mem_elements hroots) hid
    exact ih (hexplored.known (hts ▸ ht))
  | @fails found pending s e hnew hbases =>
    obtain ⟨base, rfl, hlacks⟩ := lacks_of_basesIn_eq_error hbases
    exact ⟨s, base, rfl, hexplored.reachable_pending s (by simp), hlacks⟩
  | enters hnew hbases _ ih => exact ih (hexplored.enters hnew hbases)

/-- The search from the roots lists what they extend, or reports a reachable schema with a base that is not
given. -/
theorem right_discover (hall : all.Filed Schema.id) (hroots : ∀ r ∈ roots.elements, r ∈ all.elements) :
    Right all roots (discover all roots) :=
  (discovers_discover all roots).right hall hroots (explored_start all roots)

end Schemata.Lineage
