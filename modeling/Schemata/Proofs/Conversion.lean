import Schemata.Conversion
import Schemata.Proofs.Lineage.Canopy

/-!
# What a conversion collects from

A conversion reads schemas and joins them with their bases before it collects anything. These steps are `prepare` here,
and a conversion is `prepare` and then `collect` on the graph that it leaves (`run_convert`); the journal is left aside.

Whatever the schemas are, those that have been prepared have root objects above a region of the graph with everything
else (`exists_canopy_of_prepare`).
-/

namespace Schemata.Conversion

open Schema (Assembled Canopy Rooted)

variable {w w' : Workspace} {supplementary generated : List Entries} {given : List Schema}
  {schemas found all : Registry Schema}

/-! ### The run of a conversion -/

/-- Read the schemas and join them with their bases. The schemas to generate are returned. -/
def prepare (supplementary generated : List Entries) : Build (Registry Schema) := do
  let supplementary ← parseAll supplementary
  let generated ← parseAll generated
  let all ← MonadExcept.ofExcept (together supplementary generated)
  let _ ← Lineage.resolve all generated
  return generated

theorem run_parseSchema_of_ok {w : Workspace} {entries : Entries} {graph : Graph} {s : Schema}
    (hparse : Schema.parse w.graph entries = .ok (graph, s)) :
    (parseSchema entries).run.run w = (.ok s, ⟨graph, w.journal ++ [.parsedSchema s.id s.parent s.bases]⟩) := by
  rw [parseSchema, Build.run_bind, Build.run_onGraph, hparse]
  rfl

/-- A conversion collects from what has been prepared, and does not change it. -/
theorem run_convert (supplementary generated : List Entries) (w : Workspace) :
    ((convert supplementary generated).run.run w).1 =
        (((prepare supplementary generated).run.run w).1 >>=
          collect ((prepare supplementary generated).run.run w).2.graph) ∧
      ((convert supplementary generated).run.run w).2.graph =
        ((prepare supplementary generated).run.run w).2.graph := by
  rw [convert, prepare, Build.run_bind, Build.run_bind]
  rcases (parseAll supplementary).run.run w with ⟨e | given, w⟩
  · exact ⟨rfl, rfl⟩
  simp only
  rw [Build.run_bind, Build.run_bind]
  rcases (parseAll generated).run.run w with ⟨e | schemas, w⟩
  · exact ⟨rfl, rfl⟩
  simp only
  rw [Build.run_bind, Build.run_bind, Build.run_ofExcept]
  rcases together given schemas with e | all
  · exact ⟨rfl, rfl⟩
  simp only
  rw [Build.run_bind, Build.run_bind]
  rcases (Lineage.resolve all schemas).run.run w with ⟨e | joined, w⟩
  · exact ⟨rfl, rfl⟩
  have hcollect : (Build.ofGraph fun g => collect g schemas).run.run w = (collect w.graph schemas, w) :=
    Build.run_ofExcept _ _
  have hreturn : (pure schemas : Build (Registry Schema)).run.run w = (.ok schemas, w) := rfl
  simp only [Build.run_bind, hcollect, hreturn]
  rcases hcase : collect w.graph schemas with e | collected
  · exact ⟨hcase.symm, rfl⟩
  · exact ⟨hcase.symm, rfl⟩

/-! ### Reading schemas -/

theorem assembled_of_parseSchema {entries : Entries} {s : Schema} (hw : Assembled w.graph given)
    (hrun : (parseSchema entries).run.run w = (.ok s, w')) : Assembled w'.graph (s :: given) := by
  rcases hparse : Schema.parse w.graph entries with e | ⟨graph, t⟩
  · rw [parseSchema, Build.run_bind, Build.run_onGraph, hparse] at hrun
    exact nomatch hrun
  · rw [run_parseSchema_of_ok hparse] at hrun
    obtain ⟨hok, rfl⟩ := Prod.mk.inj hrun
    obtain rfl := Except.ok.inj hok
    exact hw.parse hparse

/-- Schemas that have been read are filed by their identifiers, and nothing in the graph leads to their roots. -/
theorem exists_assembled_of_parseAll {data : List Entries} (hw : Assembled w.graph given)
    (hrun : (parseAll data).run.run w = (.ok schemas, w')) :
    schemas.Filed Schema.id ∧ ∃ given', Assembled w'.graph given' ∧ (∀ s ∈ given, s ∈ given') ∧
      ∀ s ∈ schemas.elements, s ∈ given' := by
  have hfound : (∅ : Registry Schema).Filed Schema.id := Registry.filed_empty _
  have hgiven : ∀ s ∈ (∅ : Registry Schema).elements, s ∈ given := by simp
  rw [parseAll] at hrun
  generalize (∅ : Registry Schema) = found at hrun hfound hgiven
  induction data generalizing found w given with
  | nil =>
    obtain ⟨hok, rfl⟩ := Prod.mk.inj hrun
    obtain rfl := Except.ok.inj hok
    exact ⟨hfound, given, hw, fun _ hs => hs, hgiven⟩
  | cons entries data ih =>
    rw [List.foldlM_cons, Build.run_bind_eq_ok_iff] at hrun
    obtain ⟨next, v, hstep, hrest⟩ := hrun
    rw [Build.run_bind_eq_ok_iff] at hstep
    obtain ⟨s, u, hparse, hregister⟩ := hstep
    rw [Build.run_ofExcept] at hregister
    obtain ⟨hnext, rfl⟩ := Prod.mk.inj hregister
    obtain ⟨-, rfl⟩ := Registry.register_eq_ok_iff.mp (mapError_eq_ok_iff.mp hnext)
    have hmem : ∀ t ∈ (found.insert Schema.id s).elements, t ∈ s :: given := by
      intro t ht
      rcases Registry.mem_elements_put ht with rfl | ht
      · exact List.mem_cons_self
      · exact List.mem_cons_of_mem s (hgiven t ht)
    obtain ⟨hfiled, given', hassembled, hsubset, hmem'⟩ :=
      ih (assembled_of_parseSchema hw hparse) _ hrest (hfound.put rfl) hmem
    exact ⟨hfiled, given', hassembled, fun t ht => hsubset t (List.mem_cons_of_mem s ht), hmem'⟩

/-- Two sets of schemas together have all schemas of both. -/
theorem mem_elements_together {first second : Registry Schema} (hfirst : first.Filed Schema.id)
    (hsecond : second.Filed Schema.id) (htogether : together first second = .ok all) :
    all.Filed Schema.id ∧ ∀ s, s ∈ all.elements ↔ s ∈ first.elements ∨ s ∈ second.elements := by
  have hempty : (∅ : Registry Schema).Filed Schema.id := Registry.filed_empty _
  rw [together, List.foldlM_cons, bind_eq_ok_iff] at htogether
  obtain ⟨one, hone, htwo⟩ := htogether
  rw [List.foldlM_cons, bind_eq_ok_iff] at htwo
  obtain ⟨two, htwo, hlast⟩ := htwo
  obtain rfl := Except.ok.inj hlast
  replace hone := mapError_eq_ok_iff.mp hone
  replace htwo := mapError_eq_ok_iff.mp htwo
  have honefiled : one.Filed Schema.id := (Registry.registerAll_eq_ok_iff.mp hone).2 ▸ hempty.insertAll first
  refine ⟨(Registry.registerAll_eq_ok_iff.mp htwo).2 ▸ honefiled.insertAll second, fun s => ?_⟩
  rw [Registry.mem_elements_of_registerAll_eq_ok honefiled hsecond htwo,
    Registry.mem_elements_of_registerAll_eq_ok hempty hfirst hone, Registry.elements_empty]
  simp

/-! ### Joining schemas -/

/-- **Prepared schemas** are filed by their identifiers, and their root objects stand above the rest of the graph. -/
theorem exists_canopy_of_prepare (hrun : (prepare supplementary generated).run.run {} = (.ok schemas, w)) :
    schemas.Filed Schema.id ∧ ∃ given R rank, Canopy w.graph given R rank ∧ Rooted w.graph given ∧
      ∀ s ∈ schemas.elements, s ∈ given := by
  rw [prepare, Build.run_bind_eq_ok_iff] at hrun
  obtain ⟨first, w₁, hfirst, hrun⟩ := hrun
  rw [Build.run_bind_eq_ok_iff] at hrun
  obtain ⟨second, w₂, hsecond, hrun⟩ := hrun
  rw [Build.run_bind_eq_ok_iff] at hrun
  obtain ⟨all, w₃, htogether, hrun⟩ := hrun
  rw [Build.run_ofExcept] at htogether
  obtain ⟨hboth, rfl⟩ := Prod.mk.inj htogether
  rw [Build.run_bind_eq_ok_iff] at hrun
  obtain ⟨joined, w₄, hresolve, hrun⟩ := hrun
  obtain ⟨hok, rfl⟩ := Prod.mk.inj hrun
  obtain rfl := Except.ok.inj hok
  obtain ⟨hfiled₁, given₁, hassembled₁, -, hgiven₁⟩ := exists_assembled_of_parseAll Schema.assembled_empty hfirst
  obtain ⟨hfiled₂, given₂, hassembled₂, hsubset, hgiven₂⟩ := exists_assembled_of_parseAll hassembled₁ hsecond
  obtain ⟨hall, hmem⟩ := mem_elements_together hfiled₁ hfiled₂ hboth
  have hgiven : ∀ s ∈ all.elements, s ∈ given₂ := fun s hs =>
    ((hmem s).mp hs).elim (fun hs => hsubset s (hgiven₁ s hs)) (hgiven₂ s)
  have hroots : ∀ s ∈ second.elements, s ∈ all.elements := fun s hs => (hmem s).mpr (.inr hs)
  obtain ⟨rank, hcanopy⟩ := hassembled₂.exists_canopy
  obtain ⟨horder, hjoins⟩ := Lineage.joins_of_resolve_eq_ok hresolve
  have hjoin := Lineage.isJoinOrder_of_order_eq_ok hall hroots horder
  obtain ⟨hrooted, R, rank', hcanopy'⟩ := (hcanopy.subset hgiven).foldlM joined
    (hassembled₂.parses.rooted.subset hgiven) (fun s hs => ((hjoin.mem_iff s).mp hs).mem_elements hroots) hjoins
  exact ⟨hfiled₂, all.elements, R, rank', hcanopy', hrooted, hroots⟩

end Schemata.Conversion
