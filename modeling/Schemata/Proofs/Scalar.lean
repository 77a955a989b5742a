import Mathlib.Data.List.Chain
import Mathlib.Tactic.Ring
import Mathlib.Tactic.SplitIfs
import Schemata.Scalar

/-!
# What the fingerprint of a scalar tells

A fingerprint puts the name of a kind, a truth value and the text of a default in a row, with commas between them. The
name and the default may contain commas as well, but the text of a default never ends with a comma and the text of
another default (`Literal.textOf_ne_append`): such a comma would stand inside of quotes, and a quote inside of quotes
stands behind a backslash. So a fingerprint can be taken apart again (`Scalar.fingerprint_eq_iff`).

What it does not tell is where the truth value comes from: the two flags are lost.
-/

namespace Schemata

/-! ### Numbers -/

namespace Binary64

/-- A multiple of the grid that is the value itself lies between the ends. -/
theorem exists_nearestOnGrid {upward : Nat → Bool} {closed : Bool} {low value high den grid k : Nat} (hden : 0 < den)
    (hgrid : 0 < grid) (hk : value * grid = k * den) (hlow : low < value) (hhigh : value < high) :
    ∃ digits, nearestOnGrid upward closed low value high den grid = some digits := by
  have hbelow : value * grid / den = k := by rw [hk, Nat.mul_div_cancel _ hden]
  have hl : low * grid < k * den := hk ▸ Nat.mul_lt_mul_of_pos_right hlow hgrid
  have hh : k * den < high * grid := hk ▸ Nat.mul_lt_mul_of_pos_right hhigh hgrid
  rw [nearestOnGrid, hbelow]
  cases closed
  · simp only [Bool.false_eq_true, if_false, hl, hh, decide_true, Bool.and_self]
    split <;> simp_all
  · simp only [if_true, hl.le, hh.le, decide_true, Bool.and_self]
    split <;> simp_all

theorem exists_shortestFrom {closed : Bool} {low value high den n : Nat}
    (hn : ∃ digits, nearestOnGrid (fun _ => true) closed low value high den (pow10 n) = some digits) (fuel : Nat) :
    ∀ places, places ≤ n → n < places + fuel → ∃ d, shortestFrom closed low value high den fuel places = some d := by
  induction fuel with
  | zero =>
    intro places hle hlt
    omega
  | succ fuel ih =>
    intro places hle hlt
    rw [shortestFrom]
    split
    · exact ⟨_, rfl⟩
    · rename_i hnone
      have hne : places ≠ n := by
        rintro rfl
        obtain ⟨digits, hdigits⟩ := hn
        exact nomatch hnone.symm.trans hdigits
      exact ih (places + 1) (by omega) (by omega)

/-- Every fraction with a power of two below the line is a decimal, so the search for the shortest one finds one. -/
theorem exists_shortest? {m : Nat} {e : Int} (hwhole : wholePart? m e = none) : ∃ d, shortest? m e = some d := by
  have he : e < 0 := by
    by_contra he
    simp [wholePart?, twoPow, Int.not_lt.mp he, Nat.mod_one] at hwhole
  obtain ⟨n, rfl⟩ : ∃ n : Nat, e = -(n : Int) := ⟨(-e).toNat, by omega⟩
  have hpow : twoPow (-(n : Int)) = (1, 2 ^ n) := by
    rw [twoPow, if_neg (by omega), neg_neg, Int.toNat_natCast]
    rfl
  have hm : m % 2 ^ n ≠ 0 := by
    intro hzero
    simp [wholePart?, hpow, hzero] at hwhole
  have hpos : 0 < m := Nat.pos_of_ne_zero fun hzero => hm (by rw [hzero, Nat.zero_mod])
  rw [shortest?, hpow, interval]
  simp only [neg_neg, Int.toNat_natCast]
  refine exists_shortestFrom (n := n) (exists_nearestOnGrid (k := m * 5 ^ n) ?_ ?_ ?_ ?_ ?_) _ _ (by omega) (by omega)
  · exact Nat.mul_pos (by decide) (Nat.pow_pos (by decide))
  · exact Nat.pow_pos (by decide)
  · have hten : pow10 n = 2 ^ n * 5 ^ n := Nat.mul_pow 2 5 n
    rw [hten]
    ring
  · split_ifs <;> omega
  · omega

end Binary64

/-! ### Texts without commas, quotes and parentheses -/

/-- A text has no comma, no quote and no opening parenthesis. -/
def IsPlain (cs : List Char) : Prop :=
  ∀ c ∈ cs, c ≠ ',' ∧ c ≠ '"' ∧ c ≠ '('

instance (cs : List Char) : Decidable (IsPlain cs) :=
  List.decidableBAll (fun c => c ≠ ',' ∧ c ≠ '"' ∧ c ≠ '(') cs

theorem IsPlain.append {cs ds : List Char} (hcs : IsPlain cs) (hds : IsPlain ds) : IsPlain (cs ++ ds) :=
  fun c hc => (List.mem_append.mp hc).elim (hcs c) (hds c)

theorem isPlain_of_isDigit {cs : List Char} (hcs : ∀ c ∈ cs, c.isDigit = true) : IsPlain cs := by
  intro c hc
  have hdigit := hcs c hc
  refine ⟨?_, ?_, ?_⟩
  · rintro rfl
    exact absurd hdigit (by decide)
  · rintro rfl
    exact absurd hdigit (by decide)
  · rintro rfl
    exact absurd hdigit (by decide)

theorem isPlain_toDigits (n : Nat) : IsPlain (Nat.toDigits 10 n) :=
  isPlain_of_isDigit fun _ hc => Nat.isDigit_of_mem_toDigits (by decide) (by decide) hc

theorem isPlain_repr (n : Nat) : IsPlain n.repr.toList := by
  rw [Nat.repr, String.toList_ofList]
  exact isPlain_toDigits n

theorem Binary64.Decimal.isPlain_render (d : Decimal) : IsPlain d.render.toList := by
  have hpadded : IsPlain (List.replicate (d.places + 1 - (Nat.toDigits 10 d.digits).length) '0' ++
      Nat.toDigits 10 d.digits) := by
    refine IsPlain.append (isPlain_of_isDigit fun c hc => ?_) (isPlain_toDigits _)
    rw [List.eq_of_mem_replicate hc]
    decide
  rw [render, String.toList_ofList]
  refine IsPlain.append (fun c hc => hpadded c (List.mem_of_mem_take hc)) fun c hc => ?_
  rcases List.mem_cons.mp hc with rfl | hc
  · decide
  · exact hpadded c (List.mem_of_mem_drop hc)

theorem Binary64.isPlain_render (x : Binary64) : IsPlain x.render.toList := by
  have hsign : ∀ negative : Bool, IsPlain (if negative then "-" else "").toList := by
    intro negative
    cases negative <;> decide
  cases x with
  | nan => decide
  | infinite negative => cases negative <;> decide
  | finite negative m e =>
    rw [render]
    split
    · rw [String.toList_append, String.toList_append]
      exact ((hsign negative).append (isPlain_repr _)).append (by decide)
    · rw [String.toList_append]
      refine (hsign negative).append ?_
      cases shortest? m e with
      | none => decide
      | some d => exact d.isPlain_render

theorem Binary64.render_ne_empty (x : Binary64) : x.render ≠ "" := by
  cases x with
  | nan => decide
  | infinite negative => cases negative <;> decide
  | finite negative m e =>
    rw [render]
    split
    · simp
    · rename_i hwhole
      obtain ⟨d, hd⟩ := exists_shortest? hwhole
      simp [hd, Decimal.render]

/-! ### Quoted texts -/

namespace Text

/-- A quote stands behind a backslash. -/
abbrev Guarded : Char → Char → Prop :=
  fun c d => d = '"' → c = '\\'

/-- Hexadecimal digits are digits and letters up to `f`. -/
theorem notMem_hexDigits (n : Nat) {d : Char} (hd : ∀ k, Nat.digitChar k ≠ d) : d ∉ hexDigits n := by
  have hcore : ∀ (fuel n : Nat) (cs : List Char), d ∉ cs → d ∉ Nat.toDigitsCore 16 fuel n cs := by
    intro fuel
    induction fuel with
    | zero => exact fun n cs hcs => hcs
    | succ fuel ih =>
      intro n cs hcs
      have hnext : d ∉ (n % 16).digitChar :: cs := by
        rw [List.mem_cons, not_or]
        exact ⟨fun heq => hd _ heq.symm, hcs⟩
      rw [Nat.toDigitsCore]
      split_ifs
      · exact hnext
      · exact ih _ _ hnext
  exact hcore _ _ [] List.not_mem_nil

theorem isChain_of_forall_ne {cs : List Char} (hcs : ∀ c ∈ cs, c ≠ '"') (d : Char) :
    List.IsChain Guarded (d :: cs) := by
  induction cs generalizing d with
  | nil => exact .singleton d
  | cons c cs ih =>
    rw [List.isChain_cons_cons]
    exact ⟨fun heq => absurd heq (hcs c (by simp)), ih (fun e he => hcs e (by simp [he])) c⟩

theorem isChain_quotedChar (c d : Char) : List.IsChain Guarded (d :: quotedChar c) := by
  rw [quotedChar]
  split_ifs with hquote
  · simp
  · exact isChain_of_forall_ne (by simp) d
  · exact isChain_of_forall_ne (by simp) d
  · exact isChain_of_forall_ne (by simp) d
  · exact isChain_of_forall_ne (by simp) d
  · exact isChain_of_forall_ne (by simp) d
  · refine isChain_of_forall_ne (fun e he => ?_) d
    rcases List.mem_append.mp he with he | he
    · rcases List.mem_append.mp he with he | he
      · exact (by simp : ∀ e ∈ ['\\', 'u', '\x7b'], e ≠ '"') e he
      · rintro rfl
        exact notMem_hexDigits _ (fun _ => Nat.digitChar_ne '"' (by decide)) he
    · exact (by simp : ∀ e ∈ ['\x7d'], e ≠ '"') e he
  · exact isChain_of_forall_ne (by simpa using hquote) d

/-- Inside of quotes, a quote stands behind a backslash. -/
theorem isChain_flatMap_quotedChar (cs : List Char) (d : Char) : List.IsChain Guarded (d :: cs.flatMap quotedChar) := by
  induction cs generalizing d with
  | nil => exact .singleton d
  | cons c cs ih =>
    rw [List.flatMap_cons, ← List.cons_append, List.isChain_append]
    refine ⟨isChain_quotedChar c d, (ih d).tail, fun x _ y hy => ?_⟩
    have hchain := ih x
    cases hrest : cs.flatMap quotedChar with
    | nil =>
      rw [hrest] at hy
      exact nomatch hy
    | cons z rest =>
      rw [hrest] at hy hchain
      obtain rfl := Option.some.inj hy
      exact (List.isChain_cons_cons.mp hchain).1

theorem toList_quoted (s : String) : (quoted s).toList = '"' :: (s.toList.flatMap quotedChar ++ ['"']) := by
  rw [quoted, String.toList_ofList, List.cons_append]

/-- Inside of quotes, no quote stands behind a comma. -/
theorem quoted_ne_append (s t : String) (cs : List Char) : (quoted s).toList ≠ cs ++ ',' :: (quoted t).toList := by
  rw [toList_quoted, toList_quoted]
  intro heq
  have hinside : '"' :: s.toList.flatMap quotedChar = cs ++ ',' :: '"' :: t.toList.flatMap quotedChar := by
    refine List.append_left_injective ['"'] ?_
    simpa using heq
  have hchain := isChain_flatMap_quotedChar s.toList '"'
  rw [hinside, List.isChain_append_cons_cons] at hchain
  exact absurd (hchain.2.1 rfl) (by decide)

end Text

/-! ### Defaults -/

namespace Literal

/-- A literal is plain, or a quoted text. -/
theorem isPlain_render_or_eq_quoted (l : Literal) : IsPlain l.render.toList ∨ ∃ s, l.render = Text.quoted s := by
  cases l with
  | string s => exact .inr ⟨s, rfl⟩
  | int n =>
    refine .inl ?_
    cases n with
    | ofNat n => exact isPlain_repr n
    | negSucc n =>
      change IsPlain ("-" ++ (n + 1).repr).toList
      rw [String.toList_append]
      exact IsPlain.append (by decide) (isPlain_repr _)
  | float x => exact .inl x.isPlain_render
  | bool b => cases b <;> exact .inl (by decide)

theorem render_ne_empty (l : Literal) : l.render ≠ "" := by
  cases l with
  | string s =>
    intro heq
    have hlist := congrArg String.toList heq
    rw [render, Text.toList_quoted] at hlist
    exact nomatch hlist
  | int n =>
    cases n with
    | ofNat n =>
      exact Nat.repr_ne_empty
    | negSucc n =>
      change "-" ++ (n + 1).repr ≠ ""
      simp
  | float x => exact x.render_ne_empty
  | bool b => cases b <;> decide

/-- The text of a default that may be missing. -/
def textOf (default : Option Literal) : String :=
  (default.map render).getD ""

/-- The text of a default does not end with a comma and the text of a default. -/
theorem textOf_ne_append (d e : Option Literal) (cs : List Char) :
    (textOf d).toList ≠ cs ++ ',' :: (textOf e).toList := by
  intro heq
  have hcomma : ',' ∈ (textOf d).toList := by simp [heq]
  cases d with
  | none => exact absurd hcomma (by simp [textOf])
  | some l =>
    rcases l.isPlain_render_or_eq_quoted with hplain | ⟨s, hs⟩
    · exact (hplain ',' hcomma).1 rfl
    · -- What stands last is a quote, so the other text is a quoted one as well.
      have hd : textOf (some l) = Text.quoted s := hs
      rw [hd] at heq
      have hquote : '"' ∈ (textOf e).toList := by
        rw [Text.toList_quoted, ← List.cons_append] at heq
        rcases List.eq_nil_or_concat (textOf e).toList with hnil | ⟨rest, c, hrest⟩
        · rw [hnil] at heq
          exact absurd (List.append_inj' heq rfl).2 (by decide)
        · rw [hrest, List.concat_eq_append, ← List.cons_append, ← List.append_assoc] at heq
          rw [hrest, List.singleton_inj.mp (List.append_inj' heq rfl).2]
          simp
      cases e with
      | none => exact absurd hquote (by simp [textOf])
      | some k =>
        rcases k.isPlain_render_or_eq_quoted with hplain | ⟨t, ht⟩
        · exact (hplain '"' hquote).2.1 rfl
        · have he : textOf (some k) = Text.quoted t := ht
          rw [he] at heq
          exact Text.quoted_ne_append s t cs heq

theorem map_render_eq_of_textOf_eq {d e : Option Literal} (heq : textOf d = textOf e) :
    d.map render = e.map render := by
  cases d with
  | none =>
    cases e with
    | none => rfl
    | some k => exact absurd heq.symm k.render_ne_empty
  | some l =>
    cases e with
    | none => exact absurd heq l.render_ne_empty
    | some k => exact congrArg some heq

end Literal

/-! ### Fingerprints -/

namespace Scalar

/-- A row can be taken apart at its last comma if neither last part can go on to the left. -/
theorem eq_of_append_comma {xs ys rs ss : List Char} (hr : ∀ cs, rs ≠ cs ++ ',' :: ss) (hs : ∀ cs, ss ≠ cs ++ ',' :: rs)
    (heq : xs ++ ',' :: rs = ys ++ ',' :: ss) : xs = ys ∧ rs = ss := by
  rcases List.append_eq_append_iff.mp heq with ⟨as, rfl, has⟩ | ⟨bs, rfl, hbs⟩
  · cases as with
    | nil => exact ⟨(List.append_nil xs).symm, (List.cons.inj has).2⟩
    | cons a as => exact absurd (List.cons.inj has).2 (hr as)
  · cases bs with
    | nil => exact ⟨List.append_nil ys, (List.cons.inj hbs).2.symm⟩
    | cons b bs => exact absurd (List.cons.inj hbs).2 (hs bs)

/-- **A fingerprint tells** the name of the kind, whether the scalar can be null, and the text of the default. -/
theorem fingerprint_eq_iff {s t : Scalar} :
    s.fingerprint = t.fingerprint ↔
      s.kind.name = t.kind.name ∧ s.isNull = t.isNull ∧
        s.default.map Literal.render = t.default.map Literal.render := by
  have hplain : ∀ (b : Bool) (cs ds : List Char),
      (if b then "true" else "false" : String).toList ≠ cs ++ ',' :: ds := by
    intro b cs ds heq
    have hcomma : ',' ∈ (if b then "true" else "false" : String).toList := by simp [heq]
    revert hcomma
    cases b <;> decide
  constructor
  · intro heq
    have hrow : (s.kind.name.toList ++ ',' :: (if s.isNull then "true" else "false" : String).toList) ++
          ',' :: (Literal.textOf s.default).toList =
        (t.kind.name.toList ++ ',' :: (if t.isNull then "true" else "false" : String).toList) ++
          ',' :: (Literal.textOf t.default).toList := by
      have hlists := congrArg String.toList heq
      simpa [fingerprint, Literal.textOf] using hlists
    obtain ⟨hfront, hdefault⟩ :=
      eq_of_append_comma (Literal.textOf_ne_append _ _) (Literal.textOf_ne_append _ _) hrow
    obtain ⟨hname, hnull⟩ := eq_of_append_comma (fun _ => hplain _ _ _) (fun _ => hplain _ _ _) hfront
    refine ⟨String.toList_inj.mp hname, ?_, Literal.map_render_eq_of_textOf_eq (String.toList_inj.mp hdefault)⟩
    revert hnull
    cases s.isNull <;> cases t.isNull <;> decide
  · rintro ⟨hname, hnull, hdefault⟩
    rw [fingerprint, fingerprint, hname, hnull, hdefault]

/-- A scalar that cannot be null keeps both flags. -/
theorem flags_eq_of_isNull_eq_false {s t : Scalar} (hst : s.isNull = t.isNull) (ht : t.isNull = false) :
    s.required = t.required ∧ s.nullable = t.nullable := by
  rw [ht] at hst
  rw [isNull, Bool.or_eq_false_iff, Bool.not_eq_false'] at hst ht
  exact ⟨hst.2.trans ht.2.symm, hst.1.trans ht.1.symm⟩

end Scalar

end Schemata
