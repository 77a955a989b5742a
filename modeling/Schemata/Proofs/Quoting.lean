import Mathlib.Data.List.Infix
import Mathlib.Data.List.Nodup
import Schemata.Proofs.Scalar

/-!
# Undoing quotes

A quoted text begins and ends with a quote. Inside, a character is a letter behind a backslash, a number in hexadecimal
digits between braces, or itself (`Text.quotedChar_cases`). Each of these forms tells the character and where the form ends
(`Text.quotedChar_append_inj`). So a quoted text tells the text and where it ends, whatever follows
(`Text.quoted_append_inj`).
-/

namespace Schemata

/-! ### Lists up to a separator -/

theorem prefix_of_prefix_append_cons {α : Type} {front xs rest : List α} {d : α} (hd : d ∉ front)
    (h : front <+: xs ++ d :: rest) : front <+: xs := by
  have hfront : xs ++ [d] <+: xs ++ d :: rest := ⟨rest, by simp⟩
  rcases List.prefix_or_prefix_of_prefix h hfront with hle | hle
  · rcases List.prefix_concat_iff.mp hle with rfl | hle
    · exact absurd (by simp) hd
    · exact hle
  · exact absurd (hle.mem (by simp)) hd

theorem eq_of_append_cons_eq {α : Type} {xs ys rest rest' : List α} {d : α} (hxs : d ∉ xs) (hys : d ∉ ys)
    (h : xs ++ d :: rest = ys ++ d :: rest') : xs = ys ∧ rest = rest' := by
  have hle : xs <+: ys := prefix_of_prefix_append_cons hxs (h ▸ List.prefix_append xs _)
  have hge : ys <+: xs := prefix_of_prefix_append_cons hys (h ▸ List.prefix_append ys _)
  obtain rfl := hle.eq_of_length (hle.length_le.antisymm hge.length_le)
  exact ⟨rfl, by simpa using h⟩

namespace Text

/-! ### Hexadecimal digits -/

theorem digitChar_inj_of_lt {m n : ℕ} (hm : m < 16) (hn : n < 16) (h : Nat.digitChar m = Nat.digitChar n) : m = n := by
  have hall : ∀ m < 16, ∀ n < 16, Nat.digitChar m = Nat.digitChar n → m = n := by decide
  exact hall m hm n hn h

/-- The last digit tells the remainder of a number, and the digits in front of it tell the quotient. -/
theorem hexDigits_injective : Function.Injective hexDigits := by
  intro m
  induction m using Nat.strong_induction_on with
  | _ m ih =>
    intro n h
    have hm := Nat.toDigits_eq_if (b := 16) (n := m) (by decide)
    have hn := Nat.toDigits_eq_if (b := 16) (n := n) (by decide)
    rw [hexDigits, hexDigits, hm, hn] at h
    split_ifs at h with hsmall hsmall' hsmall'
    · exact digitChar_inj_of_lt hsmall hsmall' (List.singleton_inj.mp h)
    · have hlength := congrArg List.length h
      have hpos := Nat.length_toDigits_pos (b := 16) (n := n / 16)
      simp only [List.length_append, List.length_singleton] at hlength
      omega
    · have hlength := congrArg List.length h
      have hpos := Nat.length_toDigits_pos (b := 16) (n := m / 16)
      simp only [List.length_append, List.length_singleton] at hlength
      omega
    · obtain ⟨hfront, hlast⟩ := List.append_inj' h rfl
      have hquotient : m / 16 = n / 16 := ih (m / 16) (by omega) hfront
      have hremainder : m % 16 = n % 16 :=
        digitChar_inj_of_lt (Nat.mod_lt m (by decide)) (Nat.mod_lt n (by decide)) (List.singleton_inj.mp hlast)
      omega

theorem brace_notMem_hexDigits (n : ℕ) : '\x7d' ∉ hexDigits n :=
  notMem_hexDigits n fun _ => Nat.digitChar_ne '\x7d' (by decide)

/-! ### Characters inside of quotes -/

/-- The characters that are shown by a letter or a sign behind a backslash. -/
def letters : List (Char × Char) :=
  [('"', '"'), ('\\', '\\'), ('\t', 't'), ('\r', 'r'), ('\n', 'n'), ('\x00', '0')]

theorem ne_of_mem_letters {c d : Char} (h : (c, d) ∈ letters) : d ≠ 'u' := by
  rintro rfl
  have hmem : 'u' ∈ letters.map Prod.snd := List.mem_map_of_mem h
  exact absurd hmem (by decide)

theorem eq_of_mem_letters {c c' d : Char} (h : (c, d) ∈ letters) (h' : (c', d) ∈ letters) : c = c' := by
  have hnodup : (letters.map Prod.snd).Nodup := by decide
  exact (Prod.mk.inj (List.inj_on_of_nodup_map hnodup h h' rfl)).1

/-- A character inside of quotes is a letter behind a backslash, digits between braces, or itself. -/
theorem quotedChar_cases (c : Char) :
    (∃ d, (c, d) ∈ letters ∧ quotedChar c = ['\\', d]) ∨
    quotedChar c = '\\' :: 'u' :: '\x7b' :: (hexDigits c.toNat ++ ['\x7d']) ∨
    (c ≠ '\\' ∧ c ≠ '"' ∧ quotedChar c = [c]) := by
  rw [quotedChar]
  split_ifs with hquote hbackslash htab hreturn hline hnull
  · exact .inl ⟨'"', by simp [letters, hquote], rfl⟩
  · exact .inl ⟨'\\', by simp [letters, hbackslash], rfl⟩
  · exact .inl ⟨'t', by simp [letters, htab], rfl⟩
  · exact .inl ⟨'r', by simp [letters, hreturn], rfl⟩
  · exact .inl ⟨'n', by simp [letters, hline], rfl⟩
  · exact .inl ⟨'0', by simp [letters, hnull], rfl⟩
  · exact .inr (.inl (by simp))
  · exact .inr (.inr ⟨hbackslash, hquote, rfl⟩)

/-- The form of a character tells the character and where the form ends. -/
theorem quotedChar_append_inj {c d : Char} {xs ys : List Char} (h : quotedChar c ++ xs = quotedChar d ++ ys) :
    c = d ∧ xs = ys := by
  rcases quotedChar_cases c with ⟨e, hce, hc⟩ | hc | ⟨hbackslash, -, hc⟩ <;>
    rcases quotedChar_cases d with ⟨e', hde', hd⟩ | hd | ⟨hbackslash', -, hd⟩ <;>
    rw [hc, hd] at h
  · obtain ⟨rfl, rfl⟩ : e = e' ∧ xs = ys := by simpa using h
    exact ⟨eq_of_mem_letters hce hde', rfl⟩
  · exact absurd (List.cons.inj (List.cons.inj h).2).1 (ne_of_mem_letters hce)
  · exact absurd (List.cons.inj h).1.symm hbackslash'
  · exact absurd (List.cons.inj (List.cons.inj h).2).1.symm (ne_of_mem_letters hde')
  · obtain ⟨hdigits, rfl⟩ := eq_of_append_cons_eq (brace_notMem_hexDigits _) (brace_notMem_hexDigits _) (by simpa using h)
    exact ⟨Char.toNat_inj.mp (hexDigits_injective hdigits), rfl⟩
  · exact absurd (List.cons.inj h).1.symm hbackslash'
  · exact absurd (List.cons.inj h).1 hbackslash
  · exact absurd (List.cons.inj h).1 hbackslash
  · simpa using h

theorem head_quotedChar (c : Char) : ∃ d rest, quotedChar c = d :: rest ∧ d ≠ '"' := by
  rcases quotedChar_cases c with ⟨e, -, hc⟩ | hc | ⟨-, hquote, hc⟩
  · exact ⟨_, _, hc, by decide⟩
  · exact ⟨_, _, hc, by decide⟩
  · exact ⟨_, _, hc, hquote⟩

/-! ### Quoted texts -/

/-- Characters inside of quotes are told up to the next quote. -/
theorem flatMap_quotedChar_append_inj (cs : List Char) : ∀ {ds xs ys : List Char},
    cs.flatMap quotedChar ++ '"' :: xs = ds.flatMap quotedChar ++ '"' :: ys → cs = ds ∧ xs = ys := by
  induction cs with
  | nil =>
    intro ds xs ys h
    cases ds with
    | nil => exact ⟨rfl, by simpa using h⟩
    | cons d ds =>
      obtain ⟨e, rest, hd, he⟩ := head_quotedChar d
      rw [List.flatMap_cons, hd] at h
      exact absurd (List.cons.inj h).1.symm he
  | cons c cs ih =>
    intro ds xs ys h
    cases ds with
    | nil =>
      obtain ⟨e, rest, hc, he⟩ := head_quotedChar c
      rw [List.flatMap_cons, hc] at h
      exact absurd (List.cons.inj h).1 he
    | cons d ds =>
      rw [List.flatMap_cons, List.flatMap_cons, List.append_assoc, List.append_assoc] at h
      obtain ⟨rfl, hrest⟩ := quotedChar_append_inj h
      obtain ⟨rfl, rfl⟩ := ih hrest
      exact ⟨rfl, rfl⟩

/-- **A quoted text** tells the text and where it ends. -/
theorem quoted_append_inj {s t : String} {xs ys : List Char} (h : (quoted s).toList ++ xs = (quoted t).toList ++ ys) :
    s = t ∧ xs = ys := by
  rw [toList_quoted, toList_quoted] at h
  have hinside : s.toList.flatMap quotedChar ++ '"' :: xs = t.toList.flatMap quotedChar ++ '"' :: ys := by
    simpa using h
  obtain ⟨hbody, rfl⟩ := flatMap_quotedChar_append_inj s.toList hinside
  exact ⟨String.toList_inj.mp hbody, rfl⟩

theorem quoted_injective : Function.Injective quoted := by
  intro s t h
  have hlists : (quoted s).toList ++ [] = (quoted t).toList ++ [] := by rw [h]
  exact (quoted_append_inj hlists).1

end Text

end Schemata
