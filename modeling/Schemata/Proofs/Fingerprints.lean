import Mathlib
import Schemata.Proofs.Quoting

/-!
# Defaults told by fingerprints

The fingerprint of a scalar tells the text of its default (`Scalar.fingerprint_eq_iff`). The text shows of which sort the
default is (`Literal.kindOfText_render`): a text is quoted, a floating-point number has a point or is spelled in letters, a
truth value is one of two words, and an integer is none of this. Among the texts, integers and truth values it also tells
the default itself, so that scalars with such defaults have one fingerprint exactly if their kinds have one name, both or
none of them can be null, and they have one default (`Scalar.fingerprint_eq_iff_default_eq`).
-/

namespace Schemata

/-- The text of a floating-point number has a point, or is a word with one of two letters. -/
theorem Binary64.sign_mem_render (x : Binary64) :
    '.' ∈ x.render.toList ∨ 'N' ∈ x.render.toList ∨ 'i' ∈ x.render.toList := by
  cases x with
  | nan => exact .inr (.inl (by decide))
  | infinite negative => exact .inr (.inr (by cases negative <;> decide))
  | finite negative m e =>
    refine .inl ?_
    rw [render]
    split
    · simp
    · next hwhole =>
      obtain ⟨d, hd⟩ := exists_shortest? hwhole
      simp [hd, Decimal.render]

namespace Literal

/-- The kind of scalar that has the literal among its values. -/
def kind : Literal → ScalarKind
  | .string _ => .string
  | .int _ => .int
  | .float _ => .float
  | .bool _ => .bool

/-- The kind that the text of a literal shows. -/
def kindOfText (text : List Char) : ScalarKind :=
  if '"' ∈ text then .string
  else if '.' ∈ text ∨ 'N' ∈ text ∨ 'i' ∈ text then .float
  else if 'e' ∈ text then .bool
  else .int

theorem notMem_toList_repr {n : ℤ} {c : Char} (hminus : c ≠ '-') (hdigit : c.isDigit = false) : c ∉ n.repr.toList := by
  have hnat : ∀ k : ℕ, c ∉ k.repr.toList := by
    intro k hc
    rw [Nat.repr_eq_ofList_toDigits, String.toList_ofList] at hc
    rw [Nat.isDigit_of_mem_toDigits (by decide) (by decide) hc] at hdigit
    exact nomatch hdigit
  cases n with
  | ofNat k => exact hnat k
  | negSucc k =>
    change c ∉ ("-" ++ (k + 1).repr).toList
    rw [String.toList_append, List.mem_append, not_or]
    exact ⟨fun hc => hminus (List.mem_singleton.mp hc), hnat _⟩

/-- The kind of a literal shows in its text. -/
theorem kindOfText_render (l : Literal) : kindOfText l.render.toList = l.kind := by
  cases l with
  | string s =>
    refine if_pos ?_
    rw [render, Text.toList_quoted]
    exact List.mem_cons_self
  | int n =>
    have hquote : '"' ∉ n.repr.toList := notMem_toList_repr (by decide) (by decide)
    have hletter : 'e' ∉ n.repr.toList := notMem_toList_repr (by decide) (by decide)
    have hsign : ¬ ('.' ∈ n.repr.toList ∨ 'N' ∈ n.repr.toList ∨ 'i' ∈ n.repr.toList) := by
      rintro (hc | hc | hc)
      all_goals exact absurd hc (notMem_toList_repr (by decide) (by decide))
    change kindOfText n.repr.toList = .int
    rw [kindOfText, if_neg hquote, if_neg hsign, if_neg hletter]
  | float x =>
    have hquote : '"' ∉ x.render.toList := fun hc => (x.isPlain_render _ hc).2.1 rfl
    rw [render, kindOfText, if_neg hquote, if_pos x.sign_mem_render]
    rfl
  | bool b => cases b <;> decide

/-- Unless they are floating-point numbers, literals are told by their texts. -/
theorem render_inj {k l : Literal} (hfloat : k.kind = .float → l.kind ≠ .float) : k.render = l.render ↔ k = l := by
  refine ⟨fun h => ?_, congrArg render⟩
  have hkind : k.kind = l.kind := by rw [← kindOfText_render, ← kindOfText_render, h]
  cases k with
  | string s =>
    cases l with
    | string t => exact congrArg _ (Text.quoted_injective h)
    | _ => exact nomatch hkind
  | int m =>
    cases l with
    | int n => exact congrArg _ (Int.repr_injective h)
    | _ => exact nomatch hkind
  | float x => exact absurd hkind.symm (hfloat rfl)
  | bool b =>
    cases l with
    | bool c => cases b <;> cases c <;> first | rfl | exact absurd h (by decide)
    | _ => exact nomatch hkind

theorem map_render_inj {d e : Option Literal} (hfloat : ∀ x y, d = some (.float x) → e ≠ some (.float y)) :
    d.map render = e.map render ↔ d = e := by
  refine ⟨fun h => ?_, congrArg _⟩
  cases d with
  | none => exact (Option.map_eq_none_iff.mp h.symm).symm
  | some k =>
    cases e with
    | none => exact nomatch h
    | some l =>
      have hkinds : k.kind = .float → l.kind ≠ .float := by
        intro hk hl
        cases k with
        | float x =>
          cases l with
          | float y => exact hfloat x y rfl rfl
          | _ => exact nomatch hl
        | _ => exact nomatch hk
      exact congrArg some ((render_inj hkinds).mp (Option.some.inj h))

end Literal

namespace Scalar

/-- **Fingerprints are unambiguous** about defaults that are texts, integers or truth values, or missing, and also if only
one of them is a floating-point number: two scalars have one fingerprint exactly if their kinds have one name, both or
none of them can be null, and both have the same default or none. The name of a kind can be any token, also one with
commas and quotes. -/
theorem fingerprint_eq_iff_default_eq {s t : Scalar}
    (hfloat : ∀ x y, s.default = some (.float x) → t.default ≠ some (.float y)) :
    s.fingerprint = t.fingerprint ↔
      s.kind.name = t.kind.name ∧ s.isNull = t.isNull ∧ s.default = t.default := by
  rw [fingerprint_eq_iff, Literal.map_render_inj hfloat]

/-- A scalar with the fingerprint `#a,true,"b",false,"c"`. Most of it is the token. -/
def longToken : Scalar :=
  { kind := .other "a,true,\"b\"", required := true, default := some (.string "c") }

/-- A scalar with the fingerprint `#a,true,"b\",false,\"c"`. Most of it is the default. -/
def longDefault : Scalar :=
  { kind := .other "a", nullable := true, default := some (.string "b\",false,\"c") }

/-- A scalar of another kind with the name of the integers. -/
def intToken : Scalar :=
  { kind := .other "int", required := true, nullable := true, default := some (.int (-1)) }

/-- The two long fingerprints are told by backslashes. Flags, and tokens that are spelled like the name of another kind, do
not tell scalars, and the sort of a default does. -/
theorem fingerprints_of_tokens :
    (∀ x y, longToken.default = some (.float x) → longDefault.default ≠ some (.float y)) ∧
      longToken.fingerprint ≠ longDefault.fingerprint ∧
      intToken.fingerprint = { intToken with kind := .int, required := false }.fingerprint ∧
      intToken.fingerprint ≠ { intToken with default := some (.float (.ofInt (-1))) }.fingerprint := by
  have hlong : ∀ x y, longToken.default = some (.float x) → longDefault.default ≠ some (.float y) := by
    simp [longToken]
  have hint : ∀ x, intToken.default ≠ some (.float x) := by
    simp [intToken]
  refine ⟨hlong, fun h => ?_, ?_, fun h => ?_⟩
  · have hnames := ((fingerprint_eq_iff_default_eq hlong).mp h).1
    exact absurd hnames (by decide)
  · exact (fingerprint_eq_iff_default_eq fun x _ hx => absurd hx (hint x)).mpr ⟨rfl, rfl, rfl⟩
  · have hdefaults := ((fingerprint_eq_iff_default_eq fun x _ hx => absurd hx (hint x)).mp h).2.2
    exact absurd hdefaults (hint _)

end Scalar

end Schemata
