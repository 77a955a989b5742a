import Schemata.Proofs.ByteOrder
import Schemata.Proofs.Scalar

/-!
# Defaults as Go literals

The default of a text is written into Go source in its quoted form. Go reads what stands between the quotes as characters
and escapes: a backslash before one of nine letters and signs, three octal digits, or `x`, `u` and `U` with two, four and
eight hexadecimal digits. A quoted text is written by other rules. Quotes, backslashes, tabs and line ends mean the same in
both, and so does every character that is written as it is. But a character without a printed form is shown by digits
between braces, which no escape of Go has, and the null character by a single zero, where Go reads two more digits.

So a default is read back exactly if none of its characters is written in one of these two ways
(`Go.interpretedValue?_render_string`).
-/

namespace Schemata

namespace Go

/-! ### Interpreted string literals -/

/-- The letters and signs that stand for one character behind a backslash. -/
def escapes : List (Char × Char) :=
  [('a', '\x07'), ('b', '\x08'), ('f', '\x0c'), ('n', '\n'), ('r', '\r'), ('t', '\t'), ('v', '\x0b'), ('\\', '\\'),
   ('"', '"')]

/-- The value of a digit to a base. -/
def digitValue? (base : ℕ) (c : Char) : Option ℕ :=
  let value :=
    if '0' ≤ c ∧ c ≤ '9' then c.toNat - '0'.toNat
    else if 'a' ≤ c ∧ c ≤ 'f' then c.toNat - 'a'.toNat + 10
    else if 'A' ≤ c ∧ c ≤ 'F' then c.toNat - 'A'.toNat + 10
    else base
  if value < base then some value else none

/-- Read so many more digits of a number, with what stands behind them. -/
def readDigits (base : ℕ) : (count value : ℕ) → List Char → Option (ℕ × List Char)
  | 0, value, text => some (value, text)
  | _ + 1, _, [] => none
  | count + 1, value, c :: text =>
    match digitValue? base c with
    | some digit => readDigits base count (value * base + digit) text
    | none => none

/-- A number as a single byte. -/
def byte? (n : ℕ) : Option (List UInt8) :=
  if n < 0x100 then some [UInt8.ofNat n] else none

/-- A number as the bytes of a character. The halves of surrogate pairs are none. -/
def codePoint? (n : ℕ) : Option (List UInt8) :=
  if n.isValidChar then some (String.utf8EncodeChar (Char.ofNat n)) else none

/-- Read an escape by number. -/
def readNumber (encode : ℕ → Option (List UInt8)) (base count : ℕ) (text : List Char) :
    Option (List UInt8 × List Char) :=
  match readDigits base count 0 text with
  | some (n, rest) => (encode n).map fun bytes => (bytes, rest)
  | none => none

/-- Read what stands behind a backslash: the bytes that the escape stands for, and the text behind it. -/
def readEscape : List Char → Option (List UInt8 × List Char)
  | [] => none
  | c :: text =>
    match escapes.lookup c with
    | some d => some (String.utf8EncodeChar d, text)
    | none =>
      if c = 'x' then readNumber byte? 16 2 text
      else if c = 'u' then readNumber codePoint? 16 4 text
      else if c = 'U' then readNumber codePoint? 16 8 text
      else readNumber byte? 8 3 (c :: text)

theorem length_le_of_readDigits {base count value n : ℕ} {text rest : List Char}
    (h : readDigits base count value text = some (n, rest)) : rest.length ≤ text.length := by
  fun_induction readDigits base count value text with
  | case1 => simp_all
  | case2 => exact nomatch h
  | case3 count value c text digit hdigit ih => exact (ih h).trans (Nat.le_succ _)
  | case4 => exact nomatch h

theorem length_le_of_readNumber {encode : ℕ → Option (List UInt8)} {base count : ℕ} {bytes : List UInt8}
    {text rest : List Char} (h : readNumber encode base count text = some (bytes, rest)) : rest.length ≤ text.length := by
  rw [readNumber] at h
  split at h
  · next n rest' hdigits =>
    obtain ⟨bytes', -, heq⟩ := Option.map_eq_some_iff.mp h
    obtain ⟨-, rfl⟩ := Prod.mk.inj heq
    exact length_le_of_readDigits hdigits
  · exact nomatch h

theorem length_le_of_readEscape {bytes : List UInt8} {text rest : List Char}
    (h : readEscape text = some (bytes, rest)) : rest.length ≤ text.length := by
  cases text with
  | nil => exact nomatch h
  | cons c text =>
    rw [readEscape] at h
    split at h
    · obtain ⟨-, rfl⟩ := Prod.mk.inj (Option.some.inj h)
      exact Nat.le_succ _
    · split_ifs at h
      · exact (length_le_of_readNumber h).trans (Nat.le_succ _)
      · exact (length_le_of_readNumber h).trans (Nat.le_succ _)
      · exact (length_le_of_readNumber h).trans (Nat.le_succ _)
      · exact length_le_of_readNumber h

/-- Read what stands behind the first quote of a literal: the bytes of its value. The literal ends with the next quote. -/
def readInside : List Char → Option (List UInt8)
  | [] => none
  | c :: text =>
    if c = '"' then
      if text.isEmpty then some [] else none
    else if c = '\\' then
      match _h : readEscape text with
      | some (bytes, rest) => (readInside rest).map (bytes ++ ·)
      | none => none
    else if c = '\n' then none
    else (readInside text).map (String.utf8EncodeChar c ++ ·)
termination_by text => text.length
decreasing_by
  · exact Nat.lt_succ_of_le (length_le_of_readEscape _h)
  · exact Nat.lt_succ_self _

/-- The value of an interpreted string literal, in bytes, if a text is one. -/
def interpretedValue? (literal : String) : Option (List UInt8) :=
  match literal.toList with
  | '"' :: text => readInside text
  | _ => none

/-! ### Reading characters and escapes -/

theorem readInside_quote : readInside ['"'] = some [] := by
  rw [readInside]
  rfl

theorem readInside_char {c : Char} (hquote : c ≠ '"') (hbackslash : c ≠ '\\') (hline : c ≠ '\n') (text : List Char) :
    readInside (c :: text) = (readInside text).map (String.utf8EncodeChar c ++ ·) := by
  rw [readInside, if_neg hquote, if_neg hbackslash, if_neg hline]

theorem readInside_escape {bytes : List UInt8} {text rest : List Char} (h : readEscape text = some (bytes, rest)) :
    readInside ('\\' :: text) = (readInside rest).map (bytes ++ ·) := by
  rw [readInside, if_neg (by decide), if_pos rfl]
  split
  · next bytes' rest' h' =>
    obtain ⟨rfl, rfl⟩ := Prod.mk.inj (Option.some.inj (h.symm.trans h'))
    rfl
  · next h' => exact nomatch h.symm.trans h'

theorem readInside_of_readEscape_eq_none {text : List Char} (h : readEscape text = none) :
    readInside ('\\' :: text) = none := by
  rw [readInside, if_neg (by decide), if_pos rfl]
  split
  · next h' => exact nomatch h.symm.trans h'
  · rfl

/-! ### Reading quoted characters -/

open Text (isUnprintable quotedChar)

/-- A character that has the same meaning inside quotes for Go as in a quoted text: it has a printed form, or a letter. -/
abbrev Kept (c : Char) : Prop :=
  isUnprintable c = true → c ∈ ['\t', '\r', '\n']

theorem readInside_quotedChar_of_kept {c : Char} (hc : Kept c) (text : List Char) :
    readInside (quotedChar c ++ text) = (readInside text).map (String.utf8EncodeChar c ++ ·) := by
  rw [quotedChar]
  split_ifs with hquote hbackslash htab hreturn hline hnull hunprintable
  · subst hquote
    exact readInside_escape rfl
  · subst hbackslash
    exact readInside_escape rfl
  · subst htab
    exact readInside_escape rfl
  · subst hreturn
    exact readInside_escape rfl
  · subst hline
    exact readInside_escape rfl
  · exact absurd (hc (by rw [hnull]; decide +kernel)) (by rw [hnull]; decide)
  · exact absurd (hc hunprintable) (by simp [htab, hreturn, hline])
  · exact readInside_char hquote hbackslash hline text

/-- No escape has a brace. -/
theorem readInside_quotedChar_of_not_kept {c : Char} (hc : ¬ Kept c) (hnull : c ≠ '\x00') (text : List Char) :
    readInside (quotedChar c ++ text) = none := by
  obtain ⟨hunprintable, hnot⟩ := Classical.not_imp.mp hc
  simp only [List.mem_cons, List.not_mem_nil, or_false, not_or] at hnot
  obtain ⟨htab, hreturn, hline⟩ := hnot
  have hquote : c ≠ '"' := by
    rintro rfl
    exact absurd hunprintable (by decide +kernel)
  have hbackslash : c ≠ '\\' := by
    rintro rfl
    exact absurd hunprintable (by decide +kernel)
  rw [quotedChar, if_neg hquote, if_neg hbackslash, if_neg htab, if_neg hreturn, if_neg hline, if_neg hnull,
    if_pos hunprintable]
  exact readInside_of_readEscape_eq_none rfl

/-- ASCII characters between the controls have a printed form. -/
theorem isUnprintable_eq_false {c : Char} (hlow : 0x20 ≤ c.toNat) (hhigh : c.toNat < 0x7F) : isUnprintable c = false := by
  have htable : Text.inRanges Text.Tables.unprintable c.toNat = false := by
    have hall : ∀ range ∈ Text.Tables.unprintable, 0x7F < range.1 := by decide +kernel
    rw [Text.inRanges, List.any_eq_false]
    rintro ⟨first, last⟩ hrange
    have hfirst := hall _ hrange
    simp only [Bool.and_eq_true, decide_eq_true_eq, not_and]
    omega
  rw [isUnprintable, htable]
  simp
  omega

theorem digitValue?_eq_none {c : Char} (hc : c.toNat < 0x30 ∨ c.toNat = 0x5C ∨ 0x7F ≤ c.toNat) (base : ℕ) :
    digitValue? base c = none := by
  have hle : ∀ a b : Char, a ≤ b ↔ a.toNat ≤ b.toNat := fun _ _ => Iff.rfl
  simp only [digitValue?, hle, Char.reduceToNat]
  rw [if_neg (c := 48 ≤ c.toNat ∧ _) (by omega), if_neg (c := 97 ≤ c.toNat ∧ _) (by omega),
    if_neg (c := 65 ≤ c.toNat ∧ _) (by omega), if_neg (lt_irrefl base)]

theorem toNat_of_digit {base digit : ℕ} {c : Char} (h : digitValue? base c = some digit) :
    0x30 ≤ c.toNat ∧ c.toNat ≠ 0x5C ∧ c.toNat < 0x7F := by
  have hrange : ¬ (c.toNat < 0x30 ∨ c.toNat = 0x5C ∨ 0x7F ≤ c.toNat) := by
    intro hc
    rw [digitValue?_eq_none hc] at h
    exact nomatch h
  omega

/-- Digits stand for themselves. -/
theorem quotedChar_of_digit {base digit : ℕ} {c : Char} (h : digitValue? base c = some digit) : quotedChar c = [c] := by
  obtain ⟨hlow, hbackslash, hhigh⟩ := toNat_of_digit h
  have hne : ∀ d : Char, d.toNat < 0x30 ∨ d.toNat = 0x5C → c ≠ d := by
    rintro d hd rfl
    omega
  rw [quotedChar, if_neg (hne _ (by decide)), if_neg (hne _ (by decide)), if_neg (hne _ (by decide)),
    if_neg (hne _ (by decide)), if_neg (hne _ (by decide)), if_neg (hne _ (by decide)),
    isUnprintable_eq_false (by omega) hhigh]
  rfl

theorem utf8Size_of_digit {base digit : ℕ} {c : Char} (h : digitValue? base c = some digit) : c.utf8Size = 1 :=
  Char.utf8Size_eq_one_iff.mpr (UInt32.le_iff_toNat_le.mpr (Nat.le_of_lt (toNat_of_digit h).2.2))

/-- The quoted form of a character begins with a backslash, or with the character. -/
theorem exists_quotedChar_eq_cons (c : Char) : ∃ d rest, quotedChar c = d :: rest ∧ (d = '\\' ∨ d = c) := by
  rw [quotedChar]
  split_ifs
  all_goals exact ⟨_, _, rfl, by simp⟩

/-- What stands behind the first quote of a quoted text. -/
def inside (cs : List Char) : List Char :=
  cs.flatMap quotedChar ++ ['"']

theorem inside_cons (c : Char) (cs : List Char) : inside (c :: cs) = quotedChar c ++ inside cs := by
  rw [inside, List.flatMap_cons, List.append_assoc, inside]

/-- The digits of a quoted text are those of the text itself: nothing else is quoted with a digit in front. -/
theorem readDigits_inside (base count : ℕ) : ∀ (value : ℕ) (cs : List Char),
    readDigits base count value (inside cs) = (readDigits base count value cs).map fun read => (read.1, inside read.2) := by
  induction count with
  | zero => exact fun _ _ => rfl
  | succ count ih =>
    intro value cs
    cases cs with
    | nil =>
      have hquote : digitValue? base '"' = none := digitValue?_eq_none (by decide) base
      simp only [inside, List.flatMap_nil, List.nil_append, readDigits, hquote, Option.map_none]
    | cons c cs =>
      cases hdigit : digitValue? base c with
      | some digit =>
        rw [inside_cons, quotedChar_of_digit hdigit, List.singleton_append, readDigits, readDigits, hdigit]
        exact ih _ cs
      | none =>
        obtain ⟨d, rest, hquoted, hd⟩ := exists_quotedChar_eq_cons c
        have hnone : digitValue? base d = none := by
          rcases hd with rfl | rfl
          · exact digitValue?_eq_none (by decide) base
          · exact hdigit
        rw [inside_cons, hquoted, List.cons_append, readDigits, readDigits, hdigit, hnone]
        rfl

/-! ### What Go reads -/

/-- The bytes that Go reads from the quoted form of a text. A null character takes two digits away from what stands behind
it. -/
inductive ReadAs : List Char → List UInt8 → Prop
  /-- Nothing is read from nothing. -/
  | nil : ReadAs [] []
  /-- A character that means the same to Go is read as it is. -/
  | kept {c : Char} {cs : List Char} {bytes : List UInt8} (hc : Kept c) (hcs : ReadAs cs bytes) :
      ReadAs (c :: cs) (String.utf8EncodeChar c ++ bytes)
  /-- A null character and two octal digits are read as one byte. -/
  | null {a b : Char} {x y : ℕ} {cs : List Char} {bytes : List UInt8} (ha : digitValue? 8 a = some x)
      (hb : digitValue? 8 b = some y) (hcs : ReadAs cs bytes) :
      ReadAs ('\x00' :: a :: b :: cs) (UInt8.ofNat (x * 8 + y) :: bytes)

theorem digitValue?_lt {base digit : ℕ} {c : Char} (h : digitValue? base c = some digit) : digit < base := by
  simp only [digitValue?, Option.ite_none_right_eq_some] at h
  exact Option.some.inj h.2 ▸ h.1

/-- A null character is shown by the first digit of an octal escape. -/
theorem readEscape_zero (text : List Char) :
    readEscape ('0' :: text) =
      match readDigits 8 2 0 text with
      | some (n, rest) => (byte? n).map fun bytes => (bytes, rest)
      | none => none :=
  rfl

theorem readDigits_two_eq_some_iff {base n : ℕ} {text rest : List Char} :
    readDigits base 2 0 text = some (n, rest) ↔
      ∃ a b x y, text = a :: b :: rest ∧ digitValue? base a = some x ∧ digitValue? base b = some y ∧ n = x * base + y := by
  constructor
  · intro h
    match text with
    | [] => exact nomatch h
    | [a] =>
      simp only [readDigits] at h
      split at h <;> exact nomatch h
    | a :: b :: text =>
      simp only [readDigits] at h
      split at h
      · next x hx =>
        split at h
        · next y hy =>
          obtain ⟨rfl, rfl⟩ := Prod.mk.inj (Option.some.inj h)
          exact ⟨a, b, x, y, rfl, hx, hy, by rw [Nat.zero_mul, Nat.zero_add]⟩
        · exact nomatch h
      · exact nomatch h
  · rintro ⟨a, b, x, y, rfl, hx, hy, rfl⟩
    simp only [readDigits, hx, hy, Nat.zero_mul, Nat.zero_add]

theorem readEscape_zero_of_digits {a b : Char} {x y : ℕ} (ha : digitValue? 8 a = some x) (hb : digitValue? 8 b = some y)
    (cs : List Char) : readEscape ('0' :: inside (a :: b :: cs)) = some ([UInt8.ofNat (x * 8 + y)], inside cs) := by
  have hdigits : readDigits 8 2 0 (a :: b :: cs) = some (x * 8 + y, cs) :=
    readDigits_two_eq_some_iff.mpr ⟨a, b, x, y, rfl, ha, hb, rfl⟩
  have hx := digitValue?_lt ha
  have hy := digitValue?_lt hb
  have hbyte : byte? (x * 8 + y) = some [UInt8.ofNat (x * 8 + y)] := if_pos (by omega)
  simp only [readEscape_zero, readDigits_inside, hdigits, Option.map_some, hbyte]

/-- A null character is read together with two octal digits, if there are such. -/
theorem readInside_null_eq_some_iff {cs : List Char} {bytes : List UInt8} :
    readInside (inside ('\x00' :: cs)) = some bytes ↔
      ∃ a b x y rest bytes', cs = a :: b :: rest ∧ digitValue? 8 a = some x ∧ digitValue? 8 b = some y ∧
        readInside (inside rest) = some bytes' ∧ bytes = UInt8.ofNat (x * 8 + y) :: bytes' := by
  have hnull : inside ('\x00' :: cs) = '\\' :: '0' :: inside cs := inside_cons _ _
  rw [hnull]
  constructor
  · intro h
    cases hdigits : readDigits 8 2 0 cs with
    | none =>
      have hnone : readEscape ('0' :: inside cs) = none := by
        simp only [readEscape_zero, readDigits_inside, hdigits, Option.map_none]
      rw [readInside_of_readEscape_eq_none hnone] at h
      exact nomatch h
    | some read =>
      obtain ⟨a, b, x, y, rfl, hx, hy, -⟩ := readDigits_two_eq_some_iff.mp (hdigits : _ = some (read.1, read.2))
      rw [readInside_escape (readEscape_zero_of_digits hx hy _), Option.map_eq_some_iff] at h
      obtain ⟨bytes', hbytes', rfl⟩ := h
      exact ⟨a, b, x, y, read.2, bytes', rfl, hx, hy, hbytes', rfl⟩
  · rintro ⟨a, b, x, y, rest, bytes', rfl, hx, hy, hbytes', rfl⟩
    rw [readInside_escape (readEscape_zero_of_digits hx hy _), hbytes']
    rfl

/-- **What Go reads** from the quoted form of a text. -/
theorem readInside_inside_eq_some_iff {cs : List Char} {bytes : List UInt8} :
    readInside (inside cs) = some bytes ↔ ReadAs cs bytes := by
  constructor
  · intro h
    -- A null character is read with two more, so the induction is on the length.
    induction hlength : cs.length using Nat.strong_induction_on generalizing cs bytes with
    | _ n ih =>
      subst hlength
      cases cs with
      | nil =>
        obtain rfl := Option.some.inj (readInside_quote.symm.trans h)
        exact .nil
      | cons c cs =>
        by_cases hc : Kept c
        · rw [inside_cons, readInside_quotedChar_of_kept hc, Option.map_eq_some_iff] at h
          obtain ⟨bytes', hbytes', rfl⟩ := h
          exact .kept hc (ih _ (Nat.lt_succ_self _) hbytes' rfl)
        · by_cases hnull : c = '\x00'
          · subst hnull
            obtain ⟨a, b, x, y, rest, bytes', rfl, hx, hy, hbytes', rfl⟩ := readInside_null_eq_some_iff.mp h
            exact .null hx hy (ih _ (by simp only [List.length_cons]; omega) hbytes' rfl)
          · rw [inside_cons, readInside_quotedChar_of_not_kept hc hnull] at h
            exact nomatch h
  · intro h
    induction h with
    | nil => exact readInside_quote
    | kept hc _ ih => rw [inside_cons, readInside_quotedChar_of_kept hc, ih, Option.map_some]
    | null hx hy _ ih => exact readInside_null_eq_some_iff.mpr ⟨_, _, _, _, _, _, rfl, hx, hy, ih, rfl⟩

/-! ### What is read back -/

theorem not_kept_null : ¬ Kept '\x00' := fun h =>
  absurd (h (by decide +kernel)) (by decide)

/-- Each null character makes what is read shorter by two bytes. -/
theorem ReadAs.length_add {cs : List Char} {bytes : List UInt8} (h : ReadAs cs bytes) :
    bytes.length + 2 * cs.count '\x00' = (cs.flatMap String.utf8EncodeChar).length := by
  induction h with
  | nil => rfl
  | @kept c cs bytes hc _ ih =>
    have hne : c ≠ '\x00' := by
      rintro rfl
      exact not_kept_null hc
    rw [List.count_cons_of_ne hne, List.flatMap_cons, List.length_append, List.length_append, Nat.add_assoc, ih]
  | @null a b x y cs bytes ha hb _ ih =>
    have hne : ∀ {d : Char} {z : ℕ}, digitValue? 8 d = some z → d ≠ '\x00' := by
      rintro d z hd rfl
      exact absurd (toNat_of_digit hd).1 (by decide)
    simp only [List.count_cons_self, List.count_cons_of_ne (hne ha), List.count_cons_of_ne (hne hb), List.flatMap_cons,
      List.length_append, List.length_cons, String.length_utf8EncodeChar, utf8Size_of_digit ha, utf8Size_of_digit hb, ← ih]
    have hnull : ('\x00' : Char).utf8Size = 1 := rfl
    omega

theorem ReadAs.kept_of_null_notMem {cs : List Char} {bytes : List UInt8} (h : ReadAs cs bytes) (hnull : '\x00' ∉ cs) :
    ∀ c ∈ cs, Kept c := by
  induction h with
  | nil => exact List.forall_mem_nil _
  | kept hc _ ih => exact List.forall_mem_cons.mpr ⟨hc, ih fun hmem => hnull (List.mem_cons_of_mem _ hmem)⟩
  | null => exact absurd List.mem_cons_self hnull

theorem readAs_of_kept {cs : List Char} (h : ∀ c ∈ cs, Kept c) : ReadAs cs (cs.flatMap String.utf8EncodeChar) := by
  induction cs with
  | nil => exact .nil
  | cons c cs ih =>
    obtain ⟨hc, hcs⟩ := List.forall_mem_cons.mp h
    exact .kept hc (ih hcs)

theorem readAs_flatMap_iff {cs : List Char} :
    ReadAs cs (cs.flatMap String.utf8EncodeChar) ↔ ∀ c ∈ cs, Kept c := by
  refine ⟨fun h => h.kept_of_null_notMem ?_, readAs_of_kept⟩
  have hlength := h.length_add
  exact List.count_eq_zero.mp (by omega)

theorem interpretedValue?_quoted (s : String) : interpretedValue? (Text.quoted s) = readInside (inside s.toList) := by
  rw [interpretedValue?, Text.toList_quoted]
  rfl

/-- **Reading a default back.** Go reads from the literal of a text what `ReadAs` says, and nothing else. So the literal
has the value of the text exactly if every character of the text has a printed form or is a tab or a line end. -/
theorem interpretedValue?_render_string (s : String) :
    (∀ bytes, interpretedValue? (Literal.string s).render = some bytes ↔ ReadAs s.toList bytes) ∧
      (interpretedValue? (Literal.string s).render = some (Text.bytes s) ↔ ∀ c ∈ s.toList, Kept c) := by
  have hread : ∀ bytes, interpretedValue? (Literal.string s).render = some bytes ↔ ReadAs s.toList bytes := by
    intro bytes
    rw [Literal.render, interpretedValue?_quoted, readInside_inside_eq_some_iff]
  refine ⟨hread, ?_⟩
  rw [hread, Text.bytes_eq_flatMap, readAs_flatMap_iff]

/-- A control character makes the literal none of Go, and a null character before two digits makes it another text. -/
theorem controls_are_not_read_back :
    interpretedValue? (Literal.string "\x01").render = none ∧
      interpretedValue? (Literal.string "\x0012").render = some (Text.bytes "\n") := by
  constructor
  · have hcontrol : ¬ Kept '\x01' := fun h => absurd (h (by decide +kernel)) (by decide)
    rw [Literal.render, interpretedValue?_quoted]
    exact readInside_quotedChar_of_not_kept hcontrol (by decide) _
  · have hread : ReadAs ['\x00', '1', '2'] [0x0A] := .null (x := 1) (y := 2) rfl rfl .nil
    rw [Literal.render, interpretedValue?_quoted]
    exact readInside_inside_eq_some_iff.mpr hread

end Go

end Schemata
