import Mathlib.Logic.Function.Basic
import Schemata.Proofs.ByteOrder
import Schemata.Proofs.Mark

/-!
# Families of names under one mark

An object carries the name of the object above it as the first part of its own name. So the names `stem ++ segment ++ rest`
of everything below a shared object are a *family*, and one mark goes through all of them. It meets `stem ++ segment`, the
name of the shared object, first, and it can meet any name again on another way down.

* `Mark.run_renameAt`: a mark that is set renames a name of the family when it first meets it, and leaves everything as it
  is when it meets the name again;
* `Mark.run_mapM_renameAt`: so it does with the names in a row, in any order and with repetitions;
* `Mark.Spans.dropBytes?_start_follow`: a mark behind the segment that follows the rename shows the same rest of the name;
* `Mark.family_is_renamed_once`: all of this for a mark that is unused before it meets the first name.
-/

namespace Schemata

namespace Mark

open Text

variable {stem segment : String}

/-! ### What marks behind the segment show -/

/-- Behind the segment, the growth of a name is added to a position as it is, unless the sum is beyond all positions. -/
theorem Spans.move_eq_add {m : Mark} (hm : m.Spans stem segment) {position : ℕ}
    (hle : byteLength (stem ++ segment) ≤ position) (hfit : position + m.growth ≤ last) :
    (move position m.growth : ℤ) = position + m.growth := by
  simp only [byteLength_append] at hle
  rw [hm.growth_eq] at hfit
  simp only [move, hm.growth_eq]
  omega

/-- The start of a mark that follows a rename, measured from the end of the segment. -/
theorem Spans.exists_start_follow_eq {m other : Mark} {rest : String} (hm : m.Spans stem segment)
    (hstart : byteLength (stem ++ segment) ≤ other.start)
    (hwithin : other.start ≤ byteLength (stem ++ segment ++ rest)) (hfit : byteLength (stem ++ common ++ rest) ≤ last) :
    ∃ n, other.start = byteLength (stem ++ segment) + n ∧
      (other.follow m).start = byteLength (stem ++ common) + n := by
  obtain ⟨n, hn⟩ := Nat.exists_eq_add_of_le hstart
  rw [byteLength_append _ rest] at hwithin hfit
  refine ⟨n, hn, ?_⟩
  rw [follow, hn]
  exact hm.move_add (by omega)

/-- What a mark shows of a name from its start on is the same before and after a rename that it follows. If it starts inside
a character, it shows nothing. -/
theorem Spans.dropBytes?_start_follow {m other : Mark} {rest : String} (hm : m.Spans stem segment)
    (hstart : byteLength (stem ++ segment) ≤ other.start)
    (hwithin : other.start ≤ byteLength (stem ++ segment ++ rest)) (hfit : byteLength (stem ++ common ++ rest) ≤ last) :
    dropBytes? (stem ++ common ++ rest) (other.follow m).start = dropBytes? (stem ++ segment ++ rest) other.start := by
  obtain ⟨n, hbefore, hafter⟩ := hm.exists_start_follow_eq hstart hwithin hfit
  rw [hbefore, hafter, dropBytes?_append_add, dropBytes?_append_add]

/-- The bytes are the same, too, if it starts inside a character. -/
theorem Spans.drop_bytes_start_follow {m other : Mark} {rest : String} (hm : m.Spans stem segment)
    (hstart : byteLength (stem ++ segment) ≤ other.start)
    (hwithin : other.start ≤ byteLength (stem ++ segment ++ rest)) (hfit : byteLength (stem ++ common ++ rest) ≤ last) :
    (bytes (stem ++ common ++ rest)).drop (other.follow m).start =
      (bytes (stem ++ segment ++ rest)).drop other.start := by
  obtain ⟨n, hbefore, hafter⟩ := hm.exists_start_follow_eq hstart hwithin hfit
  rw [hbefore, hafter, bytes_append _ rest, bytes_append _ rest, ← length_bytes, ← length_bytes,
    List.drop_length_add_append, List.drop_length_add_append]

/-! ### Renaming name by name -/

variable {ι : Type} [DecidableEq ι]

/-- Rename the name with an index through the mark. The answer tells whether the name has changed. -/
def renameAt (i : ι) : StateM (Mark × (ι → String)) Bool := do
  let (m, names) ← get
  match m.rename? (names i) with
  | some (m', name) =>
    set (m', Function.update names i name)
    return true
  | none => return false

theorem run_renameAt_of_eq_some {m m' : Mark} {names : ι → String} {i : ι} {name : String}
    (h : m.rename? (names i) = some (m', name)) :
    (renameAt i).run (m, names) = (true, m', Function.update names i name) := by
  simp only [renameAt, StateT.run_bind, StateT.run_get, pure_bind, h]
  rfl

theorem run_renameAt_of_eq_none {m : Mark} {names : ι → String} {i : ι} (h : m.rename? (names i) = none) :
    (renameAt i).run (m, names) = (false, m, names) := by
  simp only [renameAt, StateT.run_bind, StateT.run_get, pure_bind, h]
  rfl

/-- The names `stem ++ segment ++ rest` of a family. Those that have been met are renamed. -/
def family (stem segment : String) (rests : ι → String) (met : List ι) (i : ι) : String :=
  if i ∈ met then stem ++ common ++ rests i else stem ++ segment ++ rests i

variable {rests : ι → String}

theorem update_family (i : ι) (met : List ι) :
    Function.update (family stem segment rests met) i (stem ++ common ++ rests i) =
      family stem segment rests (met ++ [i]) := by
  funext j
  by_cases hj : j = i
  · subst hj
    simp [family]
  · simp [family, hj]

theorem family_concat_of_mem {i : ι} {met : List ι} (hi : i ∈ met) :
    family stem segment rests (met ++ [i]) = family stem segment rests met := by
  funext j
  by_cases hj : j = i
  · subst hj
    simp [family, hi]
  · simp [family, hj]

/-- A name that has been met reads `common` behind the stem. -/
theorem run_renameAt_of_mem {m : Mark} (hm : m.start = byteLength stem) {i : ι} {met : List ι} (hi : i ∈ met) :
    (renameAt i).run (m, family stem segment rests met) = (false, m, family stem segment rests met) := by
  refine run_renameAt_of_eq_none ?_
  rw [family, if_pos hi, String.append_assoc]
  exact rename?_eq_none hm (readsCommon_common_append _)

/-- The first name of a family sets the mark. -/
theorem run_renameAt_first (hsegment : readsCommon segment = false) {first : ι} (hfirst : rests first = "") :
    (renameAt first).run (after (byteLength stem), family stem segment rests []) =
      (true, spanning stem segment, family stem segment rests [first]) := by
  have hname : family stem segment rests [] first = stem ++ segment := by
    rw [family, if_neg List.not_mem_nil, hfirst, String.append_empty]
  have hrename := rename?_of_unused (m := after (byteLength stem)) rfl rfl hsegment
  rw [run_renameAt_of_eq_some (hname ▸ hrename), ← List.nil_append [first], ← update_family, hfirst,
    String.append_empty]

/-- A mark that is set meets a name of the family. -/
theorem run_renameAt (hsegment : readsCommon segment = false) (hrests : ∀ i, IsTail (rests i)) (i : ι) (met : List ι) :
    (renameAt i).run (spanning stem segment, family stem segment rests met) =
      (decide (i ∉ met), spanning stem segment, family stem segment rests (met ++ [i])) := by
  by_cases hi : i ∈ met
  · rw [run_renameAt_of_mem rfl hi, family_concat_of_mem hi]
    simp [hi]
  · have hname : family stem segment rests met i = stem ++ segment ++ rests i := if_neg hi
    have hrename := (spanning_spans stem segment).rename?_eq_some hsegment (hrests i)
    rw [run_renameAt_of_eq_some (hname ▸ hrename), update_family]
    simp [hi]

/-- Which names of a row are new: they are neither among those met before, nor do they stand further in front. -/
def news (met order : List ι) : List Bool :=
  order.mapIdx fun k i => decide (i ∉ met ++ order.take k)

theorem news_cons (met : List ι) (i : ι) (order : List ι) :
    news met (i :: order) = decide (i ∉ met) :: news (met ++ [i]) order := by
  simp only [news, List.mapIdx_cons, List.take_zero, List.append_nil, List.take_succ_cons, List.append_assoc,
    List.singleton_append]
  rfl

theorem run_mapM_renameAt_cons {i : ι} {answer : Bool} {state state' : Mark × (ι → String)} (order : List ι)
    (h : (renameAt i).run state = (answer, state')) :
    ((i :: order).mapM renameAt).run state =
      (answer :: ((order.mapM renameAt).run state').1, ((order.mapM renameAt).run state').2) := by
  rw [List.mapM_cons, StateT.run_bind, h]
  rfl

/-- A mark that is set meets names of the family in a row. -/
theorem run_mapM_renameAt (hsegment : readsCommon segment = false) (hrests : ∀ i, IsTail (rests i)) (order : List ι) :
    ∀ met : List ι, (order.mapM renameAt).run (spanning stem segment, family stem segment rests met) =
      (news met order, spanning stem segment, family stem segment rests (met ++ order)) := by
  induction order with
  | nil =>
    intro met
    rw [List.append_nil]
    rfl
  | cons i order ih =>
    intro met
    rw [run_mapM_renameAt_cons order (run_renameAt hsegment hrests i met), ih, news_cons, List.append_assoc,
      List.singleton_append]

/-- **Families.** An unused mark behind the stem meets names `stem ++ segment ++ rest` of a family: `stem ++ segment`
first, and then others in any order and with repetitions. Each name that is met becomes `stem ++ common ++ rest`. The
answer is that it changes when it is met first, and only then, and meeting it once more leaves the mark and all names as
they are.

Let another mark have both ends behind the segment and start within a name of the family. When it follows the rename,
none of its ends is clipped, and from its start on the new name reads like the old one. Here positions are taken to be
large enough for the new name, and for the new end of the mark. -/
theorem family_is_renamed_once (hsegment : readsCommon segment = false) (hrests : ∀ i, IsTail (rests i)) {first : ι}
    (hfirst : rests first = "") (order : List ι) :
    ((first :: order).mapM renameAt).run (after (byteLength stem), fun i => stem ++ segment ++ rests i) =
        (news [] (first :: order), spanning stem segment, family stem segment rests (first :: order)) ∧
      (∀ i ∈ first :: order, family stem segment rests (first :: order) i = stem ++ common ++ rests i ∧
        (renameAt i).run (spanning stem segment, family stem segment rests (first :: order)) =
          (false, spanning stem segment, family stem segment rests (first :: order))) ∧
      ∀ (m : Mark) (i : ι), byteLength (stem ++ segment) ≤ m.start → byteLength (stem ++ segment) ≤ m.stop →
        m.start ≤ byteLength (stem ++ segment ++ rests i) → byteLength (stem ++ common ++ rests i) ≤ last →
          dropBytes? (stem ++ common ++ rests i) (m.follow (spanning stem segment)).start =
              dropBytes? (stem ++ segment ++ rests i) m.start ∧
            (bytes (stem ++ common ++ rests i)).drop (m.follow (spanning stem segment)).start =
              (bytes (stem ++ segment ++ rests i)).drop m.start ∧
            ((m.follow (spanning stem segment)).start : ℤ) = m.start + (spanning stem segment).growth ∧
            (m.stop + (spanning stem segment).growth ≤ last →
              ((m.follow (spanning stem segment)).stop : ℤ) = m.stop + (spanning stem segment).growth) := by
  have hspans := spanning_spans stem segment
  -- The start is a place of the new name, so it fits; whether the end does is left open.
  refine ⟨?_, fun i hi => ⟨if_pos hi, run_renameAt_of_mem rfl hi⟩, fun m i hstart hstop hwithin hfit =>
    ⟨hspans.dropBytes?_start_follow hstart hwithin hfit, hspans.drop_bytes_start_follow hstart hwithin hfit,
      hspans.move_eq_add hstart ?_, hspans.move_eq_add hstop⟩⟩
  · have hnames : (fun i => stem ++ segment ++ rests i) = family stem segment rests [] :=
      funext fun i => (if_neg List.not_mem_nil).symm
    rw [hnames, run_mapM_renameAt_cons order (run_renameAt_first hsegment hfirst),
      run_mapM_renameAt hsegment hrests order, news_cons]
    simp
  · rw [byteLength_append _ (rests i)] at hwithin hfit
    rw [hspans.growth_eq]
    simp only [byteLength_append] at hwithin hfit ⊢
    omega

/-- What follows the toys of a pet in the names of the toys, of their size, and of the ball of that size. -/
def toys : Fin 3 → String
  | 0 => ""
  | 1 => "_größe"
  | 2 => "_größe_ball"

/-- The size and its ball are met below the toys, the ball twice, and so are the toys themselves. The ball has a mark that
starts in front of `ball`, behind two characters of two bytes each. -/
theorem toys_are_renamed_once :
    readsCommon "toys" = false ∧ (∀ i, IsTail (toys i)) ∧ toys 0 = "" ∧
      ((0 :: [2, 1, 2, 0]).mapM renameAt).run (after 4, fun i => "pet_" ++ "toys" ++ toys i) =
        ([true, true, true, false, false], spanning "pet_" "toys", fun i => "pet_common" ++ toys i) ∧
      (byteLength ("pet_" ++ "toys") ≤ 17 ∧ 17 ≤ byteLength ("pet_" ++ "toys" ++ toys 2) ∧
        byteLength ("pet_" ++ common ++ toys 2) ≤ last) ∧
      ((after 17).follow (spanning "pet_" "toys")).start = 19 ∧
      dropBytes? "pet_common_größe_ball" 19 = some "ball" := by
  have hsegment : readsCommon "toys" = false := by decide
  have hrests : ∀ i, IsTail (toys i)
    | 0 => isTail_empty
    | 1 => .inr ⟨"größe", rfl⟩
    | 2 => .inr ⟨"größe_ball", rfl⟩
  have hfirst : toys 0 = "" := rfl
  have hnames : ∀ i, family "pet_" "toys" toys [0, 2, 1, 2, 0] i = "pet_common" ++ toys i := by decide +kernel
  obtain ⟨hrun, -, hfollow⟩ := @family_is_renamed_once "pet_" "toys" _ _ toys hsegment hrests 0 hfirst [2, 1, 2, 0]
  have hplaces : byteLength ("pet_" ++ "toys") ≤ 17 ∧ 17 ≤ byteLength ("pet_" ++ "toys" ++ toys 2) ∧
      byteLength ("pet_" ++ common ++ toys 2) ≤ last := by decide +kernel
  obtain ⟨hshown, -, hstart, -⟩ := hfollow (after 17) 2 hplaces.1 hplaces.1 hplaces.2.1 hplaces.2.2
  have hstart' : ((after 17).follow (spanning "pet_" "toys")).start = 19 := by
    have hgrowth : ((after 17).start : ℤ) + (spanning "pet_" "toys").growth = 19 := by decide +kernel
    exact_mod_cast hstart.trans hgrowth
  have hball : dropBytes? ("pet_" ++ "toys" ++ toys 2) (after 17).start = some "ball" := by decide +kernel
  refine ⟨hsegment, hrests, hfirst, ?_, hplaces, hstart', ?_⟩
  · rw [funext hnames] at hrun
    exact hrun
  · rw [hstart', hball] at hshown
    exact hshown

end Mark

end Schemata
