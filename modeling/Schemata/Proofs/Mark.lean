import Mathlib.Data.List.Infix
import Schemata.Mark

/-!
# Renaming through marks

A mark renames a family of names of the form `P ++ S ++ R`: all of them start with the stem `P` and the segment
`S` behind it, and what follows the segment is either nothing or starts with an underscore (`Mark.IsTail`). A mark
that starts after `P` turns the first of them, `P ++ S`, into `P ++ common` and is then *set* to the segment
(`Mark.Spans`); a mark that is set turns each of the others into `P ++ common ++ R`. A name that reads `common` after
the stem is left alone, so that no name of the family is renamed twice.

* `Mark.rename?_eq_none` and `Mark.rename?_of_unused`: the two answers of a mark that is not set;
* `Mark.Spans.rename?_eq_some`: the answer of a mark that is set;
* `Mark.Spans.move_add`: what is behind the segment keeps its place when it follows a rename.
-/

namespace Schemata

namespace Text

/-! ### Cutting text at its seams -/

@[simp]
theorem byteLength_append (s t : String) : byteLength (s ++ t) = byteLength s + byteLength t :=
  String.utf8ByteSize_append

theorem byteLength_ofList_cons (c : Char) (cs : List Char) :
    byteLength (String.ofList (c :: cs)) = c.utf8Size + byteLength (String.ofList cs) := by
  have h : String.ofList (c :: cs) = String.singleton c ++ String.ofList cs := by
    rw [← String.toList_inj]
    simp
  rw [h, byteLength_append]
  exact congrArg (· + _) String.utf8ByteSize_singleton

/-- Behind a seam of two sequences, the second one is cut. -/
theorem cutAt_append_add (front back : List Char) (n : Nat) :
    cutAt (front ++ back) (byteLength (String.ofList front) + n) =
      (cutAt back n).map fun (before, after) => (front ++ before, after) := by
  induction front with
  | nil => simp [byteLength]
  | cons c cs ih =>
    rw [byteLength_ofList_cons]
    obtain ⟨k, hk⟩ : ∃ k, c.utf8Size + byteLength (String.ofList cs) + n = k + 1 :=
      ⟨_, (Nat.succ_pred_eq_of_pos (Nat.add_pos_left (Nat.add_pos_left c.utf8Size_pos _) _)).symm⟩
    have hsub : k + 1 - c.utf8Size = byteLength (String.ofList cs) + n := by omega
    rw [hk, List.cons_append, cutAt, if_pos (by omega), hsub, ih, Option.map_map]
    rfl

theorem cutAt_toList_append (s t : String) :
    cutAt (s ++ t).toList (byteLength s) = some (s.toList, t.toList) := by
  have h := cutAt_append_add s.toList t.toList 0
  rw [String.ofList_toList, ← String.toList_append] at h
  simpa [cutAt] using h

theorem dropBytes?_append_add (s t : String) (n : Nat) :
    dropBytes? (s ++ t) (byteLength s + n) = dropBytes? t n := by
  have h := cutAt_append_add s.toList t.toList n
  rw [String.ofList_toList, ← String.toList_append] at h
  rw [dropBytes?, dropBytes?, h, Option.map_map]
  rfl

theorem dropBytes?_append (s t : String) : dropBytes? (s ++ t) (byteLength s) = some t := by
  rw [dropBytes?, cutAt_toList_append]
  simp

end Text

namespace Mark

open Text

/-! ### Segments that read `common` -/

/-- Whether a segment reads `common`: it starts with that word. -/
def readsCommon (segment : String) : Bool :=
  common.toList.isPrefixOf segment.toList

/-- What can follow a segment in a name: nothing, or further segments behind an underscore. -/
def IsTail (rest : String) : Prop :=
  rest = "" ∨ ∃ more, rest = "_" ++ more

theorem isTail_empty : IsTail "" :=
  Or.inl rfl

theorem IsTail.append {rest : String} (h : IsTail rest) (segment : String) :
    IsTail (rest ++ "_" ++ segment) := by
  rcases h with rfl | ⟨more, rfl⟩
  · exact Or.inr ⟨segment, by simp⟩
  · exact Or.inr ⟨more ++ "_" ++ segment, by simp [String.append_assoc]⟩

theorem readsCommon_common_append (rest : String) : readsCommon (common ++ rest) := by
  simp only [readsCommon, String.toList_append, List.isPrefixOf_iff_prefix]
  exact List.prefix_append _ _

theorem readsCommon_common : readsCommon common := by
  decide

/-- The segment that stands for a segment once what it names is shared. -/
def shared (segment : String) : String :=
  if readsCommon segment then segment else common

theorem readsCommon_shared (segment : String) : readsCommon (shared segment) := by
  rw [shared]
  split_ifs with hreads
  · exact hreads
  · exact readsCommon_common

theorem shared_shared (segment : String) : shared (shared segment) = shared segment :=
  if_pos (readsCommon_shared segment)

theorem shared_ne_empty (segment : String) : shared segment ≠ "" := by
  intro hempty
  have hreads := readsCommon_shared segment
  rw [hempty] at hreads
  exact absurd hreads (by decide)

/-- A segment that does not read `common` does not come to read it by what follows it: an underscore is no
letter of that word. -/
theorem readsCommon_append_eq_false {segment rest : String} (hs : readsCommon segment = false)
    (hr : IsTail rest) : readsCommon (segment ++ rest) = false := by
  rcases hr with rfl | ⟨more, rfl⟩
  · simpa using hs
  rw [Bool.eq_false_iff, ne_eq, readsCommon, List.isPrefixOf_iff_prefix] at hs ⊢
  intro h
  have hnot : '_' ∉ common.toList := by decide
  have hlong : segment.toList ++ ['_'] <+: (segment ++ ("_" ++ more)).toList := by
    refine ⟨more.toList, ?_⟩
    rw [String.toList_append, String.toList_append, List.append_assoc]
    rfl
  rcases List.prefix_or_prefix_of_prefix h hlong with hshort | hshort
  · rcases List.prefix_concat_iff.mp hshort with heq | hpre
    · exact hnot (heq ▸ by simp)
    · exact hs hpre
  · exact hnot (hshort.subset (by simp))

/-! ### The answers of a mark -/

/-- A name that reads `common` after the stem is left alone. -/
theorem rename?_eq_none {m : Mark} {stem segment : String} (hm : m.start = byteLength stem)
    (hs : readsCommon segment) : m.rename? (stem ++ segment) = none := by
  rw [rename?, hm, cutAt_toList_append]
  exact if_pos hs

/-- `m.Spans stem segment`: the mark is set to the stretch of `segment` behind `stem`. -/
structure Spans (m : Mark) (stem segment : String) : Prop where
  used : m.used = true
  start : m.start = byteLength stem
  stop : m.stop = byteLength (stem ++ segment)

/-- The mark that an unused mark becomes when it renames a segment behind a stem. -/
def spanning (stem segment : String) : Mark where
  used := true
  start := byteLength stem
  stop := byteLength (stem ++ segment)

theorem spanning_spans (stem segment : String) : (spanning stem segment).Spans stem segment :=
  ⟨rfl, rfl, rfl⟩

/-- The first rename replaces the whole segment and sets the mark to it. -/
theorem rename?_of_unused {m : Mark} {stem segment : String} (hm : m.start = byteLength stem)
    (hu : m.used = false) (hs : readsCommon segment = false) :
    m.rename? (stem ++ segment) = some (spanning stem segment, stem ++ common) := by
  have hs' : common.toList.isPrefixOf segment.toList = false := hs
  rw [rename?, hm, cutAt_toList_append]
  simp [hs', hu, spanning]

/-- A mark that is set replaces its segment and keeps what follows. -/
theorem Spans.rename?_eq_some {m : Mark} {stem segment : String} (hm : m.Spans stem segment)
    (hs : readsCommon segment = false) {rest : String} (hr : IsTail rest) :
    m.rename? (stem ++ segment ++ rest) = some (m, stem ++ common ++ rest) := by
  have hs' : common.toList.isPrefixOf (segment ++ rest).toList = false :=
    readsCommon_append_eq_false hs hr
  have hstop : dropBytes? (stem ++ (segment ++ rest)) m.stop = some rest := by
    rw [hm.stop, ← String.append_assoc, dropBytes?_append]
  rw [rename?, hm.start, String.append_assoc, cutAt_toList_append]
  simp only [hs', hm.used, hstop, Bool.false_eq_true, if_false, if_true, String.ofList_toList,
    Option.getD_some]

/-- A name as a mark spells it. -/
def respell (m : Mark) (name : String) : String :=
  ((m.rename? name).map Prod.snd).getD name

theorem Spans.respell_eq {m : Mark} {stem segment : String} (hm : m.Spans stem segment)
    (hs : readsCommon segment = false) {rest : String} (hr : IsTail rest) :
    m.respell (stem ++ segment ++ rest) = stem ++ common ++ rest := by
  rw [respell, hm.rename?_eq_some hs hr, Option.map_some, Option.getD_some]

/-! ### Marks that follow a rename -/

/-- A rename exchanges the length of the segment for the length of `common`. -/
theorem Spans.growth_eq {m : Mark} {stem segment : String} (hm : m.Spans stem segment) :
    m.growth = (byteLength common : Int) - byteLength segment := by
  simp only [growth, hm.used, hm.start, hm.stop, byteLength_append, if_true]
  omega

/-- A place behind the renamed segment is moved to the same place of the new name, provided that the place can be told
by a position. -/
theorem Spans.move_add {m : Mark} {stem segment : String} (hm : m.Spans stem segment) {n : Nat}
    (hfit : byteLength (stem ++ common) + n ≤ last) :
    move (byteLength (stem ++ segment) + n) m.growth = byteLength (stem ++ common) + n := by
  simp only [byteLength_append] at hfit ⊢
  simp only [move, hm.growth_eq]
  omega

theorem Spans.start_follow {m other : Mark} {stem segment rest : String} (hm : m.Spans stem segment)
    (ho : other.start = byteLength (stem ++ segment ++ rest))
    (hfit : byteLength (stem ++ common ++ rest) ≤ last) :
    (other.follow m).start = byteLength (stem ++ common ++ rest) := by
  rw [byteLength_append] at ho hfit ⊢
  rw [follow, ho, hm.move_add hfit]

end Mark

end Schemata
