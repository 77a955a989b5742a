import Mathlib.Data.Nat.ModEq
import Mathlib.Tactic.Ring
import Schemata.Proofs.ByteOrder
import Schemata.Proofs.Digest

/-!
# Digests as residues

The value of a digest is a residue: the polynomial of the bytes in the base, modulo a prime (`Digest.toNat_value_ofText`).
Nothing wraps around on the way. Sums are formed of values below the modulus, and both operations work on numbers of any
size before they reduce.

So the digest of one text behind another is the one that is put together from their digests (`Digest.ofText_append`).
-/

namespace Schemata

namespace Digest

/-! ### Arithmetic below the modulus -/

variable {x y m : UInt32}

theorem toNat_addMod (hx : x.toNat < m.toNat) (hy : y.toNat < m.toNat) :
    (addMod x y m).toNat = (x.toNat + y.toNat) % m.toNat := by
  have hm : m.toNat < 2 ^ 32 := m.toNat_lt
  rw [addMod]
  split_ifs with hle
  · rw [Nat.toUInt32_eq, UInt32.toNat_ofNat', Nat.mod_eq_of_lt (by omega), Nat.mod_eq_sub_mod hle,
      Nat.mod_eq_of_lt (a := _ - _) (by omega)]
  · rw [Nat.toUInt32_eq, UInt32.toNat_ofNat', Nat.mod_eq_of_lt (by omega), Nat.mod_eq_of_lt (by omega)]

theorem toNat_mulMod (hm : 0 < m.toNat) : (mulMod x y m).toNat = x.toNat * y.toNat % m.toNat := by
  have hlt := Nat.mod_lt (x.toNat * y.toNat) hm
  have hm : m.toNat < 2 ^ 32 := m.toNat_lt
  rw [mulMod, Nat.toUInt32_eq, UInt32.toNat_ofNat', Nat.mod_eq_of_lt (by omega)]

theorem modulus_pos : 0 < modulus.toNat := by
  decide

theorem toNat_mulMod_lt (x y : UInt32) : (mulMod x y modulus).toNat < modulus.toNat := by
  rw [toNat_mulMod modulus_pos]
  exact Nat.mod_lt _ modulus_pos

theorem toNat_addMod_lt (hx : x.toNat < modulus.toNat) (hy : y.toNat < modulus.toNat) :
    (addMod x y modulus).toNat < modulus.toNat := by
  rw [toNat_addMod hx hy]
  exact Nat.mod_lt _ modulus_pos

/-- The powers in the table are the powers of the base, reduced. -/
theorem toNat_power (k : Nat) : (power k).toNat = base.toNat ^ k % modulus.toNat := by
  induction k with
  | zero => decide
  | succ k ih => rw [power, toNat_mulMod modulus_pos, ih, Nat.mod_mul_mod, Nat.pow_succ]

/-! ### The polynomial of bytes -/

/-- The polynomial of bytes in the base, the first byte being the constant term. -/
def polynomial : List UInt8 → Nat
  | [] => 0
  | byte :: bytes => byte.toNat + base.toNat * polynomial bytes

theorem polynomial_append (bytes bytes' : List UInt8) :
    polynomial (bytes ++ bytes') = polynomial bytes + base.toNat ^ bytes.length * polynomial bytes' := by
  induction bytes with
  | nil => simp [polynomial]
  | cons byte bytes ih =>
    rw [List.cons_append, polynomial, polynomial, ih, List.length_cons]
    ring

/-- A sum that is continued with the powers from some power on. -/
theorem toNat_foldl_addMod (bytes : List UInt8) : ∀ (start : Nat) (sum : UInt32), sum.toNat < modulus.toNat →
    ((bytes.zip ((List.range' start bytes.length).map power)).foldl
      (fun sum (byte, power) => addMod sum (mulMod byte.toUInt32 power modulus) modulus) sum).toNat =
        (sum.toNat + base.toNat ^ start * polynomial bytes) % modulus.toNat := by
  induction bytes with
  | nil =>
    intro start sum hsum
    simp [polynomial, Nat.mod_eq_of_lt hsum]
  | cons byte bytes ih =>
    intro start sum hsum
    have hterm := toNat_mulMod_lt byte.toUInt32 (power start)
    rw [List.length_cons, List.range'_succ, List.map_cons, List.zip_cons_cons, List.foldl_cons,
      ih (start + 1) _ (toNat_addMod_lt hsum hterm), toNat_addMod hsum hterm, toNat_mulMod modulus_pos, toNat_power,
      UInt8.toNat_toUInt32, polynomial, Nat.pow_succ]
    change Nat.ModEq _ _ _
    calc (sum.toNat + byte.toNat * (base.toNat ^ start % modulus.toNat) % modulus.toNat) % modulus.toNat +
          base.toNat ^ start * base.toNat * polynomial bytes
        ≡ sum.toNat + byte.toNat * base.toNat ^ start + base.toNat ^ start * base.toNat * polynomial bytes
          [MOD modulus.toNat] := by
          refine Nat.ModEq.add_right _ ((Nat.mod_modEq _ _).trans (Nat.ModEq.add_left _ ((Nat.mod_modEq _ _).trans ?_)))
          exact Nat.ModEq.mul_left _ (Nat.mod_modEq _ _)
      _ = sum.toNat + base.toNat ^ start * (byte.toNat + base.toNat * polynomial bytes) := by ring

/-- **The value of a digest** is the polynomial of the bytes, reduced. -/
theorem toNat_value_ofText (s : String) :
    (ofText s).value.toNat = polynomial (Text.bytes s) % modulus.toNat := by
  rw [ofText, Hasher.weigh, List.range_eq_range', toNat_foldl_addMod _ 0 0 modulus_pos]
  simp

theorem length_ofText (s : String) : (ofText s).length = (Text.bytes s).length :=
  rfl

theorem toNat_value_append {a b : Digest} (ha : a.value.toNat < modulus.toNat) :
    (a.append b).value.toNat = (a.value.toNat + base.toNat ^ a.length * b.value.toNat) % modulus.toNat := by
  rw [append, toNat_addMod ha (toNat_mulMod_lt _ _), toNat_mulMod modulus_pos, toNat_power]
  change Nat.ModEq _ _ _
  refine Nat.ModEq.add_left _ ((Nat.mod_modEq _ _).trans ?_)
  rw [Nat.mul_comm]
  exact Nat.ModEq.mul_right _ (Nat.mod_modEq _ _)

/-- **The digest of one text behind another** is put together from their digests. -/
theorem ofText_append (s t : String) : ofText (s ++ t) = (ofText s).append (ofText t) := by
  have hs : (ofText s).value.toNat < modulus.toNat := by
    rw [toNat_value_ofText]
    exact Nat.mod_lt _ modulus_pos
  have hvalue : (ofText (s ++ t)).value.toNat = ((ofText s).append (ofText t)).value.toNat := by
    rw [toNat_value_append hs, toNat_value_ofText, toNat_value_ofText, toNat_value_ofText, Text.bytes_append,
      polynomial_append, length_ofText]
    exact ((Nat.mod_modEq _ _).add ((Nat.mod_modEq _ _).mul_left _)).symm
  have hlength : (ofText (s ++ t)).length = ((ofText s).append (ofText t)).length := by
    rw [append, length_ofText, length_ofText, length_ofText, Text.bytes_append, List.length_append]
  exact congr (congrArg Digest.mk (UInt32.toNat_inj.mp hvalue)) hlength

end Digest

end Schemata
