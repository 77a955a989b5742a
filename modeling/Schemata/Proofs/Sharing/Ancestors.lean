import Mathlib.Data.Nat.Bitwise
import Schemata.Sharing

/-!
# Ancestors found by jumps

`Sharing.ancestors` finds the ancestor `level` steps up by jumps of `1, 2, 4, …` steps. It finds the one that
`climb` comes to, which takes one step to the parent after the other (`leads_ancestors`).
-/

namespace Schemata.Sharing

/-- Where a number of steps to the parent lead, if every one of them can be taken. -/
def climb (parents : Array (Option Nat)) : Nat → Nat → Option Nat
  | 0, i => some i
  | n + 1, i => (parents[i]?.join).bind (climb parents n)

variable {parents : Array (Option Nat)}

theorem climb_add (m n i : Nat) : climb parents (m + n) i = (climb parents m i).bind (climb parents n) := by
  induction m generalizing i with
  | zero => simp [climb]
  | succ m ih =>
    rw [Nat.succ_add, climb, climb, Option.bind_assoc]
    exact congrArg _ (funext ih)

/-- There are no steps from where there is no position. -/
theorem climb_eq_none {n i : Nat} (hn : 0 < n) (hi : parents.size ≤ i) : climb parents n i = none := by
  obtain ⟨k, rfl⟩ : ∃ k, n = k + 1 := ⟨n - 1, by omega⟩
  rw [climb, Array.getElem?_eq_none hi]
  rfl

/-- `table` has for every position where `n` steps lead. -/
def Leads (parents table : Array (Option Nat)) (n : Nat) : Prop :=
  table.size = parents.size ∧ ∀ i < parents.size, table[i]? = some (climb parents n i)

/-- Jumps one after the other take their steps one after the other. -/
theorem Leads.thenJump {first second : Array (Option Nat)} {m n : Nat} (hfirst : Leads parents first m)
    (hsecond : Leads parents second n) (hn : 0 < n) : Leads parents (thenJump first second) (m + n) := by
  refine ⟨by rw [Sharing.thenJump, Array.size_map, hfirst.1], fun i hi => ?_⟩
  rw [Sharing.thenJump, Array.getElem?_map, hfirst.2 i hi, Option.map_some, climb_add]
  congr 2
  funext j
  rcases Nat.lt_or_ge j parents.size with hj | hj
  · rw [hsecond.2 j hj, Option.join_some]
  · rw [climb_eq_none hn hj, Array.getElem?_eq_none (hsecond.1 ▸ hj)]
    rfl

theorem leads_jump (parents : Array (Option Nat)) (k : Nat) : Leads parents (jump parents k) (2 ^ k) := by
  induction k with
  | zero =>
    refine ⟨rfl, fun i hi => ?_⟩
    rw [jump, Array.getElem?_eq_getElem hi, Nat.pow_zero, climb, Array.getElem?_eq_getElem hi, Option.join_some]
    cases parents[i] <;> rfl
  | succ k ih =>
    rw [Nat.pow_succ, Nat.mul_two]
    exact ih.thenJump ih (Nat.two_pow_pos k)

private theorem leads_foldl_jump (powers : List Nat) : ∀ {table : Array (Option Nat)} {n : Nat},
    Leads parents table n →
      Leads parents (powers.foldl (fun reached k => thenJump reached (jump parents k)) table)
        (n + (powers.map (2 ^ ·)).sum) := by
  induction powers with
  | nil => exact fun h => h
  | cons k powers ih =>
    intro table n h
    rw [List.foldl_cons, List.map_cons, List.sum_cons, ← Nat.add_assoc]
    exact ih (h.thenJump (leads_jump parents k) (Nat.two_pow_pos k))

/-- The powers of two at the set bits below a bit add up to the number modulo the power at that bit. -/
private theorem sum_powers_below (level m : Nat) :
    (((List.range m).filter level.testBit).map (2 ^ ·)).sum = level % 2 ^ m := by
  induction m with
  | zero => simp [Nat.mod_one]
  | succ m ih =>
    rw [List.range_succ, List.filter_append, List.map_append, List.sum_append, ih, Nat.mod_pow_succ,
      ← Nat.toNat_testBit]
    cases h : level.testBit m <;> simp [h]

/-- A number is the sum of the powers of two at its set bits. -/
theorem sum_levelPowers (level : Nat) : ((levelPowers level).map (2 ^ ·)).sum = level := by
  rw [levelPowers, sum_powers_below, Nat.mod_eq_of_lt Nat.lt_log2_self]

/-- The jumps over the bits of `level` lead where `level` steps to the parent lead. -/
theorem leads_ancestors (parents : Array (Option Nat)) (level : Nat) :
    Leads parents (ancestors parents level) level := by
  have hstart : Leads parents (Array.ofFn fun i : Fin parents.size => some i.val) 0 :=
    ⟨Array.size_ofFn, fun i hi => by simp [climb, hi]⟩
  have h := leads_foldl_jump (levelPowers level) hstart
  rwa [sum_levelPowers, Nat.zero_add] at h

/-- A position has an ancestor in the table exactly if so many steps to the parent can be taken from it. -/
theorem getElem?_ancestors_eq_some_iff {level i a : Nat} (hi : i < parents.size) :
    (ancestors parents level)[i]? = some (some a) ↔ climb parents level i = some a := by
  rw [(leads_ancestors parents level).2 i hi, Option.some.injEq]

end Schemata.Sharing
