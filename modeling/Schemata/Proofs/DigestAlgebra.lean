import Mathlib.Algebra.BigOperators.Fin
import Schemata.Proofs.Residues

/-!
# The algebra of digests

Digests below the modulus are a monoid under joining: `Digest.append` is associative, the digest of the empty text is
neutral, and the value of a joined digest is below the modulus again. Digesting is a map from texts into it, and the
value of a digest is the sum of the bytes, each weighed by the power of the base at its place.

A hasher computes all of this from a table that depends on what was hashed before. The table always holds the right
powers, so none of the laws depends on it (`Hasher.Reached.laws`).
-/

namespace Schemata

namespace Digest

/-! ### Values as sums -/

theorem polynomial_eq_sum (bytes : List UInt8) :
    polynomial bytes = ∑ k : Fin bytes.length, bytes[k].toNat * base.toNat ^ (k : ℕ) := by
  induction bytes with
  | nil => rfl
  | cons byte bytes ih =>
    have hstep : ∀ k : Fin bytes.length,
        bytes[k].toNat * base.toNat ^ ((k : ℕ) + 1) = base.toNat * (bytes[k].toNat * base.toNat ^ (k : ℕ)) := by
      intro k
      ring
    change _ = ∑ k : Fin (bytes.length + 1), (byte :: bytes)[k].toNat * base.toNat ^ (k : ℕ)
    rw [polynomial, ih, Fin.sum_univ_succ, Finset.mul_sum]
    simp only [Fin.getElem_fin, Fin.val_zero, Fin.val_succ, List.getElem_cons_zero, List.getElem_cons_succ, pow_zero,
      mul_one]
    exact congrArg _ (Finset.sum_congr rfl fun k _ => (hstep k).symm)

/-! ### Reduced digests -/

/-- The value is below the modulus. -/
def Reduced (d : Digest) : Prop :=
  d.value.toNat < modulus.toNat

variable {a b c : Digest}

theorem Reduced.append (ha : a.Reduced) (b : Digest) : (a.append b).Reduced :=
  toNat_addMod_lt ha (toNat_mulMod_lt _ _)

/-- Digests are equal if their values are the same number and their lengths agree. -/
theorem eq_of_toNat_eq (hvalue : a.value.toNat = b.value.toNat) (hlength : a.length = b.length) : a = b :=
  congr (congrArg Digest.mk (UInt32.toNat_inj.mp hvalue)) hlength

theorem Reduced.append_assoc (ha : a.Reduced) (hb : b.Reduced) (c : Digest) :
    (a.append b).append c = a.append (b.append c) := by
  refine eq_of_toNat_eq ?_ (Nat.add_assoc ..)
  have hlength : (a.append b).length = a.length + b.length := rfl
  rw [toNat_value_append (ha.append b), toNat_value_append ha, toNat_value_append ha, toNat_value_append hb, hlength]
  -- Both sides are congruent to the one sum in which every value is shifted by the lengths before it.
  change Nat.ModEq _ _ _
  calc (a.value.toNat + base.toNat ^ a.length * b.value.toNat) % modulus.toNat +
        base.toNat ^ (a.length + b.length) * c.value.toNat
      ≡ a.value.toNat + base.toNat ^ a.length * b.value.toNat + base.toNat ^ (a.length + b.length) * c.value.toNat
        [MOD modulus.toNat] := (Nat.mod_modEq _ _).add_right _
    _ = a.value.toNat + base.toNat ^ a.length * (b.value.toNat + base.toNat ^ b.length * c.value.toNat) := by ring
    _ ≡ a.value.toNat +
          base.toNat ^ a.length * ((b.value.toNat + base.toNat ^ b.length * c.value.toNat) % modulus.toNat)
        [MOD modulus.toNat] := ((Nat.mod_modEq _ _).symm.mul_left _).add_left _

theorem Reduced.empty_append (ha : a.Reduced) : (⟨0, 0⟩ : Digest).append a = a := by
  have hzero : (⟨0, 0⟩ : Digest).Reduced := modulus_pos
  refine eq_of_toNat_eq ?_ (Nat.zero_add _)
  rw [toNat_value_append hzero]
  change (0 + base.toNat ^ 0 * a.value.toNat) % modulus.toNat = a.value.toNat
  rw [pow_zero, one_mul, Nat.zero_add, Nat.mod_eq_of_lt ha]

theorem Reduced.append_empty (ha : a.Reduced) : a.append ⟨0, 0⟩ = a := by
  refine eq_of_toNat_eq ?_ (Nat.add_zero _)
  rw [toNat_value_append ha]
  change (a.value.toNat + base.toNat ^ a.length * 0) % modulus.toNat = a.value.toNat
  rw [Nat.mul_zero, Nat.add_zero, Nat.mod_eq_of_lt ha]

end Digest

/-! ### Hashers -/

theorem Hasher.Sound.toNat_getElem {h : Hasher} (hh : h.Sound) {k : ℕ} (hk : k < h.powers.size) :
    h.powers[k].toNat = Digest.base.toNat ^ k % Digest.modulus.toNat := by
  have hget : h.powers[k] = Digest.power k := by
    have hentry := congrArg (·[k]?) hh
    simpa [hk] using hentry
  rw [hget, Digest.toNat_power]

/-- **The laws of hashing**, for every hasher that digests and joins lead to. The value of a digest is the sum of the bytes
weighed by the powers of 257, modulo 4294967291, and its length is that of the text. The digest of a concatenation is
joined from the digests of the parts. Joining is associative and has a neutral digest, and it keeps values below the
modulus. The table holds the powers of 257; two hashers never differ in a digest or in a join. -/
theorem Hasher.Reached.laws {h : Hasher} (hh : h.Reached) :
    (∀ s : String,
      (Hasher.digest s h).1.value.toNat =
          (∑ k : Fin (Text.bytes s).length, (Text.bytes s)[k].toNat * 257 ^ (k : ℕ)) % 4294967291 ∧
        (Hasher.digest s h).1.length = Text.byteLength s) ∧
    (∀ s t : String,
      (Hasher.digest (s ++ t) h).1 = ((do Hasher.join (← Hasher.digest s) (← Hasher.digest t) : Hashing Digest) h).1) ∧
    (∀ a b c : Digest, a.Reduced → b.Reduced → c.Reduced →
      ((do Hasher.join (← Hasher.join a b) c : Hashing Digest) h).1 =
        ((do Hasher.join a (← Hasher.join b c) : Hashing Digest) h).1) ∧
    (∀ a : Digest, a.Reduced → (Hasher.join ⟨0, 0⟩ a h).1 = a ∧ (Hasher.join a ⟨0, 0⟩ h).1 = a) ∧
    (∀ a b : Digest, a.Reduced → b.Reduced → (Hasher.join a b h).1.Reduced) ∧
    (∀ (k : ℕ) (hk : k < h.powers.size), h.powers[k].toNat = 257 ^ k % 4294967291) ∧
    ∀ h' : Hasher, h'.Reached →
      (∀ s : String, (Hasher.digest s h').1 = (Hasher.digest s h).1) ∧
        ∀ a b : Digest, (Hasher.join a b h').1 = (Hasher.join a b h).1 := by
  have hdigest : ∀ s, (Hasher.digest s h).1 = .ofText s := fun s => (Hashing.yields_digest s h hh.sound).1
  have hjoin : ∀ a b, (Hasher.join a b h).1 = a.append b := fun a b => (Hashing.yields_join a b h hh.sound).1
  refine ⟨fun s => ⟨?_, ?_⟩, fun s t => ?_, fun a b c ha hb _ => ?_, fun a ha => ⟨?_, ?_⟩, fun a b ha _ => ?_,
    fun k hk => hh.sound.toNat_getElem hk, fun h' hh' => ⟨fun s => ?_, fun a b => ?_⟩⟩
  · rw [hdigest, Digest.toNat_value_ofText, Digest.polynomial_eq_sum]
    rfl
  · rw [hdigest, Digest.length_ofText, Text.length_bytes]
  · have hparts : Hashing.Yields (do Hasher.join (← Hasher.digest s) (← Hasher.digest t))
        (.append (.ofText s) (.ofText t)) :=
      (Hashing.yields_digest s).bind ((Hashing.yields_digest t).bind (Hashing.yields_join _ _))
    rw [hdigest, Digest.ofText_append, (hparts h hh.sound).1]
  · have hleft : Hashing.Yields (do Hasher.join (← Hasher.join a b) c) ((a.append b).append c) :=
      (Hashing.yields_join a b).bind (Hashing.yields_join _ c)
    have hright : Hashing.Yields (do Hasher.join a (← Hasher.join b c)) (a.append (b.append c)) :=
      (Hashing.yields_join b c).bind (Hashing.yields_join a _)
    rw [(hleft h hh.sound).1, (hright h hh.sound).1, ha.append_assoc hb]
  · rw [hjoin, ha.empty_append]
  · rw [hjoin, ha.append_empty]
  · rw [hjoin]
    exact ha.append b
  · rw [hdigest, (Hashing.yields_digest s h' hh'.sound).1]
  · rw [hjoin, (Hashing.yields_join a b h' hh'.sound).1]

/-- A hasher that has digested a text and joined two digests still digests by the polynomial, reduced: the power at the
last byte is above the modulus. And the parts of the text may be digested apart. -/
theorem Hasher.digest_of_crate_after_join :
    (Hasher.join ⟨7, 2⟩ ⟨9, 1⟩ (Hasher.digest "nut" {}).2).2.Reached ∧
      (Hasher.digest ("cr" ++ "ate") (Hasher.join ⟨7, 2⟩ ⟨9, 1⟩ (Hasher.digest "nut" {}).2).2).1.value.toNat =
        (99 + 114 * 257 + 97 * 257 ^ 2 + 116 * 257 ^ 3 + 101 * 257 ^ 4) % 4294967291 ∧
      ((do Hasher.join (← Hasher.digest "cr") (← Hasher.digest "ate") : Hashing Digest)
          (Hasher.join ⟨7, 2⟩ ⟨9, 1⟩ (Hasher.digest "nut" {}).2).2).1.value.toNat =
        (99 + 114 * 257 + 97 * 257 ^ 2 + 116 * 257 ^ 3 + 101 * 257 ^ 4) % 4294967291 := by
  have hreached : (Hasher.join ⟨7, 2⟩ ⟨9, 1⟩ (Hasher.digest "nut" {}).2).2.Reached := .join (.digest .empty "nut") _ _
  obtain ⟨hdigest, hparts, -⟩ := hreached.laws
  have hsum : (∑ k : Fin (Text.bytes ("cr" ++ "ate")).length,
      (Text.bytes ("cr" ++ "ate"))[k].toNat * 257 ^ (k : ℕ)) % 4294967291 =
        (99 + 114 * 257 + 97 * 257 ^ 2 + 116 * 257 ^ 3 + 101 * 257 ^ 4) % 4294967291 := by
    decide +kernel
  have hvalue := (hdigest ("cr" ++ "ate")).1.trans hsum
  exact ⟨hreached, hvalue, hparts "cr" "ate" ▸ hvalue⟩

end Schemata
