import Mathlib.Data.List.Basic
import Schemata.Naming

/-!
# Characters of camel case

The words of a name are made of letters and digits, and recasing a letter or digit never yields a sign that stands before
the letters: what the tables of counterparts lead to lies above. So a name in camel case has no bracket and no blank, and in
source text it ends where the first one stands (`Text.notMem_upperCamel`, `Text.notMem_lowerCamel`).
-/

namespace Schemata

namespace Text

/-! ### Words -/

theorem pieces_ne_nil (cs : List Char) : pieces cs ≠ [] := by
  induction cs with
  | nil => simp [pieces]
  | cons c cs ih =>
    rw [pieces]
    split
    · simp
    · split_ifs <;> simp

/-- The pieces of a name have its letters and digits only. -/
theorem isAlphanumeric_of_mem_pieces {cs piece : List Char} {c : Char} (hpiece : piece ∈ pieces cs) (hc : c ∈ piece) :
    isAlphanumeric c = true := by
  induction cs generalizing piece with
  | nil => simp_all [pieces]
  | cons d cs ih =>
    obtain ⟨first, rest, hpieces⟩ := List.exists_cons_of_ne_nil (pieces_ne_nil cs)
    simp only [pieces, hpieces] at hpiece ih
    split_ifs at hpiece with hd
    · rcases List.mem_cons.mp hpiece with rfl | hpiece
      · rcases List.mem_cons.mp hc with rfl | hc
        · exact hd
        · exact ih List.mem_cons_self hc
      · exact ih (List.mem_cons_of_mem _ hpiece) hc
    · rcases List.mem_cons.mp hpiece with rfl | hpiece
      · exact absurd hc List.not_mem_nil
      · exact ih hpiece hc

/-- Dividing a piece into words adds no character. -/
theorem mem_of_mem_wordsFrom {run : CaseRun} {read cs word : List Char} {c : Char} (hword : word ∈ wordsFrom run read cs)
    (hc : c ∈ word) : c ∈ read ∨ c ∈ cs := by
  fun_induction wordsFrom run read cs with
  | case1 run read hempty => exact absurd hword List.not_mem_nil
  | case2 run read => simp_all
  | case3 run read d => simp_all [or_comm]
  | case4 run read d next rest hseam ih => grind
  | case5 run read d next rest _ hseam ih => grind
  | case6 run read d next rest _ _ ih => grind

theorem isAlphanumeric_of_mem_words {cs word : List Char} {c : Char} (hword : word ∈ words cs) (hc : c ∈ word) :
    isAlphanumeric c = true := by
  obtain ⟨piece, hpiece, hword⟩ := List.mem_flatMap.mp hword
  rcases mem_of_mem_wordsFrom hword hc with hread | hc
  · exact absurd hread List.not_mem_nil
  · exact isAlphanumeric_of_mem_pieces hpiece hc

/-! ### Counterparts -/

/-- A sign that stands before the letters: a bracket, a blank, a line end. -/
abbrev IsSign (d : Char) : Prop :=
  0 < d.toNat ∧ d.toNat < 'A'.toNat ∧ isAlphanumeric d = false

variable {d : Char}

theorem toNat_ofNat {n : ℕ} (hn : n.isValidChar) : (Char.ofNat n).toNat = n := by
  rw [Char.ofNat, dif_pos hn]
  rfl

theorem ofNat_ne {n : ℕ} (hd : IsSign d) (hn : 'A'.toNat ≤ n) : Char.ofNat n ≠ d := by
  rintro rfl
  obtain ⟨hpos, hlow, -⟩ := hd
  by_cases hvalid : n.isValidChar
  · rw [toNat_ofNat hvalid] at hlow
    exact absurd hn (Nat.not_le_of_lt hlow)
  · rw [Char.ofNat, dif_neg hvalid] at hpos
    exact absurd hpos (by decide)

/-- Tables whose entries all lead to letters and above do not lead to a sign. -/
theorem notMem_counterpart {shifts : List (ℕ × ℕ × ℕ × Int)} {expanded : List (ℕ × List ℕ)} {c : Char} (hd : IsSign d)
    (hshifts : ∀ entry ∈ shifts, ('A'.toNat : Int) ≤ entry.1 + entry.2.2.2)
    (hexpanded : ∀ entry ∈ expanded, ∀ code ∈ entry.2, 'A'.toNat ≤ code) (hc : c ≠ d) :
    d ∉ counterpart shifts expanded c := by
  intro hmem
  rw [counterpart] at hmem
  split at hmem
  · next codes hfind =>
    obtain ⟨code, hcode, hsign⟩ := List.mem_map.mp hmem
    exact ofNat_ne hd (hexpanded _ (List.mem_of_find?_eq_some hfind) code hcode) hsign
  · split at hmem
    · next first last step delta hfind =>
      have hentry : ('A'.toNat : Int) ≤ first + delta := hshifts _ (List.mem_of_find?_eq_some hfind)
      have hstride : first ≤ c.toNat := by
        have hin := List.find?_some hfind
        simp only [inStride, Bool.and_eq_true, decide_eq_true_eq] at hin
        exact hin.1.1
      have hcode : 'A'.toNat ≤ (c.toNat + delta).toNat := by omega
      exact ofNat_ne hd hcode (List.mem_singleton.mp hmem).symm
    · exact hc (List.mem_singleton.mp hmem).symm

theorem ascii_recased_ne {c : Char} (hd : IsSign d) (hascii : c.toNat < 0x80) (hc : c ≠ d) :
    c.toUpper ≠ d ∧ c.toLower ≠ d := by
  have hall : ∀ n : Fin 0x80,
      ((Char.ofNat n).toUpper = Char.ofNat n ∨ 'A'.toNat ≤ (Char.ofNat n).toUpper.toNat) ∧
        ((Char.ofNat n).toLower = Char.ofNat n ∨ 'A'.toNat ≤ (Char.ofNat n).toLower.toNat) := by
    decide
  have hne : ∀ {e : Char}, e = c ∨ 'A'.toNat ≤ e.toNat → e ≠ d := by
    rintro e (rfl | hhigh) rfl
    · exact hc rfl
    · exact absurd hd.2.1 (Nat.not_lt_of_le hhigh)
  have hthis := hall ⟨c.toNat, hascii⟩
  rw [Char.ofNat_toNat] at hthis
  exact ⟨hne hthis.1, hne hthis.2⟩

theorem notMem_upcase {c : Char} (hd : IsSign d) (hc : c ≠ d) : d ∉ upcase c := by
  rw [upcase]
  split_ifs with hascii
  · exact fun h => (ascii_recased_ne hd hascii hc).1 (List.mem_singleton.mp h).symm
  · exact notMem_counterpart hd (by decide +kernel) (by decide +kernel) hc

theorem notMem_downcase {c : Char} (hd : IsSign d) (hc : c ≠ d) : d ∉ downcase c := by
  rw [downcase]
  split_ifs with hascii
  · exact fun h => (ascii_recased_ne hd hascii hc).2 (List.mem_singleton.mp h).symm
  · exact notMem_counterpart hd (by decide +kernel) (by decide +kernel) hc

/-! ### Names -/

theorem notMem_lowered {word : List Char} (hd : IsSign d) (hword : d ∉ word) : d ∉ lowered word := by
  fun_induction lowered word with
  | case1 => exact List.not_mem_nil
  | case2 =>
    rw [List.mem_singleton]
    rintro rfl
    exact absurd hd.2.1 (by decide)
  | case3 c cs _ ih =>
    rw [List.mem_cons, not_or] at hword
    rw [List.mem_append, not_or]
    exact ⟨notMem_downcase hd (Ne.symm hword.1), ih hword.2⟩

theorem notMem_capitalized {word : List Char} (hd : IsSign d) (hword : d ∉ word) : d ∉ capitalized word := by
  cases word with
  | nil => exact List.not_mem_nil
  | cons c cs =>
    rw [List.mem_cons, not_or] at hword
    rw [capitalized, List.mem_append, not_or]
    exact ⟨notMem_upcase hd (Ne.symm hword.1), notMem_lowered hd hword.2⟩

theorem notMem_of_mem_words {cs word : List Char} (hd : IsSign d) (hword : word ∈ words cs) : d ∉ word := by
  intro hmem
  have hsign := hd.2.2
  rw [isAlphanumeric_of_mem_words hword hmem] at hsign
  exact nomatch hsign

theorem notMem_flatMap_capitalized {cs : List Char} {part : List (List Char)} (hd : IsSign d) (hpart : part ⊆ words cs) :
    d ∉ part.flatMap capitalized := by
  rw [List.mem_flatMap]
  rintro ⟨word, hword, hmem⟩
  exact notMem_capitalized hd (notMem_of_mem_words hd (hpart hword)) hmem

/-- A name in camel case has no sign. -/
theorem notMem_upperCamel (hd : IsSign d) (name : String) : d ∉ (upperCamel name).toList := by
  rw [upperCamel, String.toList_ofList]
  exact notMem_flatMap_capitalized hd (List.Subset.refl _)

theorem notMem_lowerCamel (hd : IsSign d) (name : String) : d ∉ (lowerCamel name).toList := by
  rw [lowerCamel]
  split
  · exact List.not_mem_nil
  · next first rest hwords =>
    rw [String.toList_ofList, List.mem_append, not_or]
    have hfirst : first ∈ words name.toList := by
      rw [hwords]
      exact List.mem_cons_self
    have hrest : rest ⊆ words name.toList := by
      rw [hwords]
      exact List.subset_cons_self _ _
    exact ⟨notMem_lowered hd (notMem_of_mem_words hd hfirst), notMem_flatMap_capitalized hd hrest⟩

/-! ### Reading up to a sign -/

theorem forall_mem_decide_ne {d : Char} {front : List Char} (hfront : d ∉ front) :
    ∀ c ∈ front, decide (c ≠ d) = true := fun _ hc =>
  decide_eq_true fun heq => hfront (heq ▸ hc)

/-- A text without a sign is what is read up to the first one behind it. -/
theorem takeWhile_ne_append {d : Char} {front : List Char} (hfront : d ∉ front) (back : List Char) :
    (front ++ d :: back).takeWhile (· ≠ d) = front := by
  rw [List.takeWhile_append_of_pos (forall_mem_decide_ne hfront), List.takeWhile_cons_of_neg (by simp), List.append_nil]

theorem dropWhile_ne_append {d : Char} {front : List Char} (hfront : d ∉ front) (back : List Char) :
    (front ++ d :: back).dropWhile (· ≠ d) = d :: back := by
  rw [List.dropWhile_append_of_pos (forall_mem_decide_ne hfront), List.dropWhile_cons_of_neg (by simp)]

end Text

/-- A Go name has no bracket. -/
theorem Naming.bracket_notMem_goName (path segment : String) : '(' ∉ (goName path segment).toList :=
  Text.notMem_upperCamel (by decide +kernel) _

end Schemata
