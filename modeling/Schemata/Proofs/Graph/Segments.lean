import Schemata.Proofs.Graph.Moving

/-!
# Segments of names

The name of an object is that of the object above it, an underscore and a segment. The segment is the name of the
property that holds it, if no other property of the object above holds the same item. Otherwise it is `common`, unless
the first of those properties has a name that reads `common` already (`Graph.segment`).

When one more property is moved, the properties that come to share an item get one segment, and all others keep theirs
(`segment_move_of_lead_eq`, `segment_move_of_lead_ne`).
-/

open scoped List

namespace Schemata

open Text (byteLength)

namespace Naming

/-- A path and what stands before its next segment. -/
theorem join_eq_append (path segment : String) : join path segment = join path "" ++ segment := by
  rw [join, join]
  split_ifs
  · rw [String.empty_append]
  · rw [String.append_empty]

theorem join_empty {path : String} (hpath : path ≠ "") : join path "" = path ++ "_" := by
  rw [join, if_neg, String.append_empty]
  simpa using hpath

theorem append_common_ne_empty (stem rest : String) : stem ++ Mark.common ++ rest ≠ "" := by
  intro hempty
  have hcommon := (String.append_eq_empty_iff.mp (String.append_eq_empty_iff.mp hempty).1).2
  exact absurd hcommon (by decide)

end Naming

namespace Graph

variable {g h h' : Graph} {root : PropertyId} {done : List Move} {m : Move} {i j k : ItemId} {p q : PropertyId}
  {o c : ObjectNode} {x y : Node}

/-! ### Segments -/

/-- The properties of an object that hold the item that one of them holds, by ascending name. -/
def sharers (g : Graph) (o : ObjectNode) (p : PropertyId) : List PropertyId :=
  o.properties.elements.filter fun q => (g.property q).item = (g.property p).item

/-- The segment that a property of an object contributes to the names of the objects it holds: its own name if it
does not share its item, and `common` if it does, unless the first of those that share it has a name that starts with
that word. -/
def segment (g : Graph) (o : ObjectNode) (p : PropertyId) : String :=
  match g.sharers o p with
  | q :: _ :: _ => Mark.shared (g.propertyName q)
  | _ => g.propertyName p

section Segments

variable (hmoved : Moved g done h) (hg : g.Arboreal root) (hmoves : SiblingMoves g root done)
  (hi : g.Leads (.property root) (.item i)) (ho : g.object? i = some o) (hp : p ∈ o.properties.elements)

include hmoved hg hmoves hi ho hp

theorem mem_sharers_iff : q ∈ h.sharers o p ↔ q ∈ o.properties.elements ∧ lead done q = lead done p := by
  have hreach : ∀ {r}, r ∈ o.properties.elements → g.Leads (.property root) (.property r) :=
    fun hr => hi.tail (link_item_property_iff.mpr ⟨o, ho, hr⟩)
  rw [sharers, List.mem_filter, decide_eq_true_eq]
  refine and_congr_right fun hq => ⟨fun heq => ?_, fun heq => ?_⟩
  · exact hmoved.lead_eq_of_encloses hg hmoves (hreach hq) (hreach hp) (.refl _) (heq ▸ .refl _)
  · rw [hmoved.held_eq, hmoved.held_eq, heq]

theorem segment_of_alone (halone : ∀ q ∈ o.properties.elements, lead done q = lead done p → q = p) :
    h.segment o p = g.propertyName p := by
  have hall : ∀ q ∈ h.sharers o p, q = p := fun q hq => by
    obtain ⟨hq, heq⟩ := (mem_sharers_iff hmoved hg hmoves hi ho hp).mp hq
    exact halone q hq heq
  have hnodup : (h.sharers o p).Nodup := (hg.filed hi ho).nodup_elements.filter _
  rw [segment]
  split
  · rename_i q r rest hsharers
    rw [hsharers] at hall hnodup
    have hqr : q = r := (hall q (by simp)).trans (hall r (by simp)).symm
    exact absurd hqr (List.ne_of_not_mem_cons (List.nodup_cons.mp hnodup).1)
  · exact hmoved.propertyName_eq p

/-- The segment of a property that shares its item is told by the property that leads it. -/
theorem segment_of_shared (hq : q ∈ o.properties.elements) (hne : q ≠ p) (hlead : lead done q = lead done p) :
    h.segment o p = Mark.shared (g.propertyName (lead done p)) := by
  have hfiled := hg.filed hi ho
  have hmem : ∀ {r}, r ∈ h.sharers o p ↔ r ∈ o.properties.elements ∧ lead done r = lead done p :=
    mem_sharers_iff hmoved hg hmoves hi ho hp
  have hself : p ∈ h.sharers o p := hmem.mpr ⟨hp, rfl⟩
  have hother : q ∈ h.sharers o p := hmem.mpr ⟨hq, hlead⟩
  have hfirst : lead done p ∈ h.sharers o p := hmem.mpr ⟨hmoves.lead_mem hg hi ho hp, hmoves.lead_lead p⟩
  have hascending : ((h.sharers o p).map g.propertyName).Pairwise (· < ·) :=
    hfiled.names_ascending.sublist (List.filter_sublist.map _)
  rw [segment]
  split
  · rename_i r r' rest hsharers
    -- The least of the names is that of the property that leads all of them.
    have hr : r = lead done p := by
      have hrmem : r ∈ h.sharers o p := by simp [hsharers]
      have hle : g.propertyName (lead done p) ≤ g.propertyName r := by
        rw [← (hmem.mp hrmem).2]
        exact hmoves.name_lead_le r
      rw [hsharers] at hfirst hascending
      rcases List.mem_cons.mp hfirst with heq | hrest
      · exact heq.symm
      · have hlt := (List.pairwise_cons.mp hascending).1 _ (List.mem_map_of_mem hrest)
        exact absurd hlt (not_lt.mpr hle)
    rw [hr, hmoved.propertyName_eq]
  · rename_i hsharers
    cases hlist : h.sharers o p with
    | nil =>
      rw [hlist] at hself
      exact absurd hself List.not_mem_nil
    | cons r rest =>
      cases rest with
      | nil =>
        rw [hlist] at hself hother
        exact absurd ((List.mem_singleton.mp hother).trans (List.mem_singleton.mp hself).symm) hne
      | cons r' rest => exact absurd hlist (hsharers r r' rest)

end Segments

/-! ### Segments after one more move -/

section Step

variable (hmoved : Moved g done h) (hmoved' : Moved g (done ++ [m]) h') (hg : g.Arboreal root)
  (hmoves : SiblingMoves g root (done ++ [m]))

include hmoves in
theorem SiblingMoves.holder_ne : ∀ m' ∈ done, m'.holder ≠ m.holder := by
  intro m' hm' heq
  have hnodup := hmoves.nodup_holders
  rw [List.map_append, List.nodup_append] at hnodup
  exact hnodup.2.2 _ (List.mem_map_of_mem hm') _ (by simp) heq

include hmoves in
theorem SiblingMoves.lead_step (p : PropertyId) :
    lead (done ++ [m]) p = if p = m.holder then m.source else lead done p :=
  lead_append hmoves.holder_ne p

include hmoves in
theorem SiblingMoves.lead_holder : lead done m.holder = m.holder :=
  lead_of_forall_ne hmoves.holder_ne

include hmoves in
theorem SiblingMoves.lead_source : lead done m.source = m.source :=
  lead_of_forall_ne fun m' hm' heq => hmoves.source_ne_holder m (by simp) m' (by simp [hm']) heq.symm

include hmoves in
theorem SiblingMoves.source_ne : m.source ≠ m.holder :=
  hmoves.source_ne_holder m (by simp) m (by simp)

include hmoves in
/-- Only the moved property was led by itself and no longer is. -/
theorem SiblingMoves.lead_eq_holder_iff : lead done p = m.holder ↔ p = m.holder := by
  refine ⟨fun heq => ?_, fun heq => heq ▸ hmoves.lead_holder⟩
  rcases lead_eq_or_exists done p with hself | ⟨m', hm', -, hsource⟩
  · exact hself.symm.trans heq
  · exact absurd (hsource.symm.trans heq) (hmoves.source_ne_holder m' (by simp [hm']) m (by simp))

variable (hi : g.Leads (.property root) (.item i)) (ho : g.object? i = some o) (hp : p ∈ o.properties.elements)

include hmoved hmoved' hg hmoves hi ho hp

/-- The properties that come to be led by the source have one segment, that of the source made to read `common`. -/
theorem segment_move_of_lead_eq (hholder : m.holder ∈ o.properties.elements)
    (hsource : m.source ∈ o.properties.elements) (hlead : lead (done ++ [m]) p = m.source) :
    h'.segment o p = Mark.shared (h.segment o m.source) := by
  have hmoves₀ := hmoves.sublist (List.sublist_append_left done [m])
  have hleadHolder : lead (done ++ [m]) m.holder = m.source := by rw [hmoves.lead_step, if_pos rfl]
  have hleadSource : lead (done ++ [m]) m.source = m.source := by
    rw [hmoves.lead_step, if_neg hmoves.source_ne, hmoves.lead_source]
  have hafter : h'.segment o p = Mark.shared (g.propertyName m.source) := by
    by_cases hph : p = m.holder
    · subst hph
      have hshared := segment_of_shared hmoved' hg hmoves hi ho hp hsource hmoves.source_ne
        (hleadSource.trans hlead.symm)
      rwa [hlead] at hshared
    · have hshared := segment_of_shared hmoved' hg hmoves hi ho hp hholder (Ne.symm hph)
        (hleadHolder.trans hlead.symm)
      rwa [hlead] at hshared
  rw [hafter]
  by_cases halone : ∀ q ∈ o.properties.elements, lead done q = lead done m.source → q = m.source
  · rw [segment_of_alone hmoved hg hmoves₀ hi ho hsource halone]
  · push Not at halone
    obtain ⟨q, hq, hleadq, hne⟩ := halone
    rw [segment_of_shared hmoved hg hmoves₀ hi ho hsource hq hne hleadq, hmoves.lead_source, Mark.shared_shared]

/-- All other properties keep their segments. -/
theorem segment_move_of_lead_ne (hlead : lead (done ++ [m]) p ≠ m.source) : h'.segment o p = h.segment o p := by
  have hmoves₀ := hmoves.sublist (List.sublist_append_left done [m])
  have hph : p ≠ m.holder := fun heq => hlead (by rw [hmoves.lead_step, if_pos heq])
  have hsame : lead (done ++ [m]) p = lead done p := by rw [hmoves.lead_step, if_neg hph]
  have hiff : ∀ q, lead (done ++ [m]) q = lead (done ++ [m]) p ↔ lead done q = lead done p := by
    intro q
    rw [hsame]
    by_cases hqh : q = m.holder
    · rw [hmoves.lead_step, if_pos hqh, hqh, hmoves.lead_holder]
      refine ⟨fun heq => absurd (hsame.trans heq.symm) hlead, fun heq => ?_⟩
      exact absurd (hmoves.lead_eq_holder_iff.mp heq.symm) hph
    · rw [hmoves.lead_step, if_neg hqh]
  by_cases halone : ∀ q ∈ o.properties.elements, lead done q = lead done p → q = p
  · rw [segment_of_alone hmoved hg hmoves₀ hi ho hp halone, segment_of_alone hmoved' hg hmoves hi ho hp]
    exact fun q hq heq => halone q hq ((hiff q).mp heq)
  · push Not at halone
    obtain ⟨q, hq, hleadq, hne⟩ := halone
    rw [segment_of_shared hmoved hg hmoves₀ hi ho hp hq hne hleadq,
      segment_of_shared hmoved' hg hmoves hi ho hp hq hne ((hiff q).mpr hleadq), hsame]

end Step

end Graph

end Schemata
