import Mathlib.Tactic.SplitIfs
import Schemata.Lineage
import Schemata.Proofs.Result

/-!
# Joining schemas one after the other

`Lineage.resolve` puts schemas into an order and joins each of them with its bases. Here its run on a workspace is
taken apart: the result is that of the order, and then that of `joinStep`, which is what one join does to the graph,
for one schema after the other (`result_resolve`). The journal is left aside.

A join fails for reasons of its own (`JoinError`), so whatever else is reported comes from the order.
-/

namespace Schemata

namespace Build

variable {α β : Type}

theorem run_bind (x : Build α) (f : α → Build β) (w : Workspace) :
    (x >>= f).run.run w =
      match x.run.run w with
      | (.ok a, w) => (f a).run.run w
      | (.error e, w) => (.error e, w) := by
  simp only [ExceptT.run_bind, StateT.run_bind]
  rcases x.run.run w with ⟨e | a, w⟩ <;> rfl

/-- A run gives something if its first step does, and then the rest from where that one led. -/
theorem run_bind_eq_ok_iff {x : Build α} {f : α → Build β} {w w' : Workspace} {b : β} :
    (x >>= f).run.run w = (.ok b, w') ↔ ∃ a v, x.run.run w = (.ok a, v) ∧ (f a).run.run v = (.ok b, w') := by
  rw [run_bind]
  rcases x.run.run w with ⟨e | a, v⟩
  · constructor
    · exact fun h => (nomatch h)
    · rintro ⟨a, v', hrun, -⟩
      cases hrun
  · constructor
    · exact fun h => ⟨a, v, rfl, h⟩
    · rintro ⟨a', v', hrun, h⟩
      cases hrun
      exact h

theorem run_ofExcept (x : Except SchemaError α) (w : Workspace) :
    (MonadExcept.ofExcept x : Build α).run.run w = (x, w) := by
  cases x <;> rfl

theorem run_onGraph (f : Graph → Except SchemaError (Graph × α)) (w : Workspace) :
    (onGraph f).run.run w =
      match f w.graph with
      | .ok (graph, a) => (.ok a, { w with graph })
      | .error e => (.error e, w) := by
  have hget : (get : Build Workspace).run.run w = (.ok w, w) := rfl
  rw [onGraph, run_bind, hget]
  simp only [run_bind, run_ofExcept]
  rcases f w.graph with e | ⟨graph, a⟩ <;> rfl

end Build

namespace Lineage

variable {all roots : Registry Schema} {s : Schema}

/-! ### One join -/

/-- The given schemas that a schema extends. -/
def basesOf (all : Registry Schema) (s : Schema) : List Schema :=
  s.bases.filterMap all.get?

/-- What joining a schema with its bases does to a graph. -/
def joinStep (all : Registry Schema) (g : Graph) (s : Schema) : Except SchemaError Graph :=
  if (basesOf all s).isEmpty then .ok g else (s.join g (basesOf all s)).map Prod.fst

/-- The errors that a join can have. -/
inductive JoinError : SchemaError → Prop where
  /-- Two bases have different properties of one name. -/
  | ambiguous (schema name : String) : JoinError (.ambiguousInheritance schema name)
  /-- The properties of a base cannot be read, or none can be added to the schema. -/
  | invalid (schema : String) (source : ItemError) : JoinError (.invalid schema source)

theorem joinError_of_inherited_eq_error {g : Graph} {bases : List Schema} {e : SchemaError}
    (h : s.inherited g bases = .error e) : JoinError e := by
  rw [Schema.inherited] at h
  generalize (∅ : Registry PropertyId) = found at h
  induction bases generalizing found with
  | nil => cases h
  | cons base bases ih =>
    rw [List.foldlM_cons] at h
    rcases bind_eq_error_iff.mp h with hstep | ⟨next, -, hrest⟩
    · rcases bind_eq_error_iff.mp hstep with hown | ⟨properties, -, hregister⟩
      · obtain ⟨source, -, rfl⟩ := mapError_eq_error_iff.mp hown
        exact .invalid base.id source
      · obtain ⟨d, -, rfl⟩ := mapError_eq_error_iff.mp hregister
        exact .ambiguous s.id d.name
    · exact ih next hrest

theorem joinError_of_joinStep_eq_error {g : Graph} {e : SchemaError} (h : joinStep all g s = .error e) :
    JoinError e := by
  rw [joinStep] at h
  split_ifs at h
  rw [map_eq_error_iff, Schema.join] at h
  rcases bind_eq_error_iff.mp h with hinherited | ⟨added, -, hadd⟩
  · exact joinError_of_inherited_eq_error hinherited
  · rcases bind_eq_error_iff.mp hadd with hadd | ⟨joined, -, hpure⟩
    · obtain ⟨source, -, rfl⟩ := mapError_eq_error_iff.mp hadd
      exact .invalid s.id source
    · cases hpure

theorem run_joinBases_of_ok {w : Workspace} {graph : Graph} (h : joinStep all w.graph s = .ok graph) :
    ∃ journal, (joinBases all s).run.run w = (.ok (), ⟨graph, journal⟩) := by
  rw [joinStep] at h
  rw [joinBases, ← basesOf]
  by_cases hempty : (basesOf all s).isEmpty
  · rw [if_pos hempty] at h
    obtain rfl := Except.ok.inj h
    exact ⟨w.journal, by simp only [hempty, if_true]; rfl⟩
  · rw [if_neg hempty] at h
    simp only [hempty, Bool.false_eq_true, if_false, Build.run_bind, Build.run_onGraph]
    cases hjoin : s.join w.graph (basesOf all s) with
    | error e =>
      rw [hjoin] at h
      cases h
    | ok joined =>
      rw [hjoin] at h
      obtain rfl := Except.ok.inj h
      exact ⟨_, rfl⟩

theorem run_joinBases_of_error {w : Workspace} {e : SchemaError} (h : joinStep all w.graph s = .error e) :
    (joinBases all s).run.run w = (.error e, w) := by
  rw [joinStep] at h
  split_ifs at h with hempty
  rw [joinBases, ← basesOf]
  simp only [hempty, Bool.false_eq_true, if_false, Build.run_bind, Build.run_onGraph]
  cases hjoin : s.join w.graph (basesOf all s) with
  | error e =>
    rw [hjoin] at h
    obtain rfl := Except.error.inj h
    rfl
  | ok joined =>
    rw [hjoin] at h
    cases h

/-! ### All joins -/

theorem joinError_of_foldlM_eq_error {g : Graph} {schemas : List Schema} {e : SchemaError}
    (h : schemas.foldlM (joinStep all) g = .error e) : JoinError e := by
  induction schemas generalizing g with
  | nil => cases h
  | cons s schemas ih =>
    rw [List.foldlM_cons, bind_eq_error_iff] at h
    rcases h with hstep | ⟨next, -, hrest⟩
    · exact joinError_of_joinStep_eq_error hstep
    · exact ih hrest

private theorem run_forM_cons (s : Schema) (schemas : List Schema) (w : Workspace) :
    ((s :: schemas).forM (joinBases all)).run.run w =
      match (joinBases all s).run.run w with
      | (.ok _, w) => (schemas.forM (joinBases all)).run.run w
      | (.error e, w) => (.error e, w) := by
  rw [List.forM_eq_forM, List.forM_cons, Build.run_bind]
  rcases (joinBases all s).run.run w with ⟨e | a, w⟩ <;> rfl

theorem run_joins_of_ok {schemas : List Schema} {w : Workspace} {graph : Graph}
    (h : schemas.foldlM (joinStep all) w.graph = .ok graph) :
    ∃ journal, (schemas.forM (joinBases all)).run.run w = (.ok (), ⟨graph, journal⟩) := by
  induction schemas generalizing w with
  | nil =>
    obtain rfl := Except.ok.inj h
    exact ⟨w.journal, rfl⟩
  | cons s schemas ih =>
    rw [List.foldlM_cons, bind_eq_ok_iff] at h
    obtain ⟨next, hstep, hrest⟩ := h
    obtain ⟨journal, hrun⟩ := run_joinBases_of_ok hstep
    rw [run_forM_cons, hrun]
    exact ih hrest

theorem run_joins_of_error {schemas : List Schema} {w : Workspace} {e : SchemaError}
    (h : schemas.foldlM (joinStep all) w.graph = .error e) :
    ∃ w', (schemas.forM (joinBases all)).run.run w = (.error e, w') := by
  induction schemas generalizing w with
  | nil => cases h
  | cons s schemas ih =>
    rw [List.foldlM_cons, bind_eq_error_iff] at h
    rcases h with hstep | ⟨next, hstep, hrest⟩
    · exact ⟨w, by rw [run_forM_cons, run_joinBases_of_error hstep]⟩
    · obtain ⟨journal, hrun⟩ := run_joinBases_of_ok hstep
      rw [run_forM_cons, hrun]
      exact ih hrest

/-! ### The whole run -/

/-- Where the joins lead if none fails. -/
theorem run_resolve_of_ok {w : Workspace} {schemas : List Schema} {graph : Graph}
    (horder : order all roots = .ok schemas) (hjoins : schemas.foldlM (joinStep all) w.graph = .ok graph) :
    ∃ journal, (resolve all roots).run.run w = (.ok schemas, ⟨graph, journal⟩) := by
  obtain ⟨journal, hrun⟩ := run_joins_of_ok hjoins
  rw [resolve]
  simp only [Build.run_bind, Build.run_ofExcept, horder, hrun]
  exact ⟨_, rfl⟩

/-- The result of a run is the order, unless that cannot be found or a join fails on the way. -/
theorem result_resolve (all roots : Registry Schema) (w : Workspace) :
    ((resolve all roots).run.run w).1 =
      (order all roots).bind fun schemas => (schemas.foldlM (joinStep all) w.graph).map fun _ => schemas := by
  cases horder : order all roots with
  | error e =>
    rw [resolve]
    simp only [Build.run_bind, Build.run_ofExcept, horder, Except.bind]
  | ok schemas =>
    cases hjoins : schemas.foldlM (joinStep all) w.graph with
    | error e =>
      obtain ⟨w', hrun⟩ := run_joins_of_error hjoins
      rw [resolve]
      simp only [Build.run_bind, Build.run_ofExcept, horder, hrun, Except.bind, hjoins, Except.map]
    | ok graph =>
      obtain ⟨journal, hrun⟩ := run_resolve_of_ok horder hjoins
      rw [hrun]
      simp only [Except.bind, hjoins, Except.map]

/-- A run without an error has found an order, and no join has failed. -/
theorem joins_of_resolve_eq_ok {w w' : Workspace} {schemas : List Schema}
    (hrun : (resolve all roots).run.run w = (.ok schemas, w')) :
    order all roots = .ok schemas ∧ schemas.foldlM (joinStep all) w.graph = .ok w'.graph := by
  have hresult := result_resolve all roots w
  rw [hrun] at hresult
  obtain ⟨found, horder, hfound⟩ := bind_eq_ok_iff.mp hresult.symm
  obtain ⟨graph, hjoins, rfl⟩ := map_eq_ok_iff.mp hfound
  obtain ⟨journal, hrun'⟩ := run_resolve_of_ok horder hjoins
  obtain ⟨-, rfl⟩ := Prod.mk.inj (hrun'.symm.trans hrun)
  exact ⟨horder, hjoins⟩

end Lineage

end Schemata
