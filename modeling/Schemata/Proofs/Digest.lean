import Mathlib.Data.List.Basic
import Schemata.Digest

/-!
# Digests and the table of powers

A hasher keeps the powers of the base that it has needed so far. As long as its table holds the right powers
(`Hasher.Sound`), which is so from the start and stays so, digests do not depend on the table: hashing yields the same
values whatever was hashed before (`Hashing.Yields`).
-/

namespace Schemata

namespace Digest

/-- The powers of the base. -/
def power : Nat → UInt32
  | 0 => 1
  | k + 1 => mulMod (power k) base modulus

/-- The digest of a text. -/
def ofText (s : String) : Digest :=
  ⟨Hasher.weigh (Text.bytes s) ((List.range (Text.bytes s).length).map power), (Text.bytes s).length⟩

/-- The digest of one text behind another. -/
def append (a b : Digest) : Digest :=
  ⟨addMod a.value (mulMod b.value (power a.length) modulus) modulus, a.length + b.length⟩

end Digest

/-! ### The table -/

namespace Hasher

/-- The table holds powers of the base, each at its place. -/
def Sound (h : Hasher) : Prop :=
  h.powers.toList = (List.range h.powers.size).map Digest.power

theorem sound_empty : ({} : Hasher).Sound :=
  rfl

/-- The next powers are appended to a table that holds at least one. -/
theorem appendPowers_eq (n : Nat) : ∀ {m : Nat} {table : Array UInt32},
    table.toList = (List.range (m + 1)).map Digest.power →
      (appendPowers n table).toList = (List.range (m + 1 + n)).map Digest.power := by
  induction n with
  | zero => exact fun htable => htable
  | succ n ih =>
    intro m table htable
    have hlast : table.back? = some (Digest.power m) := by
      rw [← Array.getLast?_toList, htable, List.range_succ, List.map_append]
      simp
    have hnext : (table.push (Digest.mulMod (table.back?.getD 1) Digest.base Digest.modulus)).toList =
        (List.range (m + 1 + 1)).map Digest.power := by
      rw [Array.toList_push, htable, hlast, Option.getD_some, List.range_succ (n := m + 1), List.map_append]
      rfl
    rw [appendPowers, ih hnext]
    congr 2
    omega

variable {h : Hasher}

theorem reserve_eq (hh : h.Sound) (limit : Nat) :
    ∃ size, limit ≤ size ∧ (h.reserve limit).powers.toList = (List.range size).map Digest.power := by
  have hstart : ∃ m, (if h.powers.isEmpty then #[1] else h.powers).toList = (List.range (m + 1)).map Digest.power := by
    split_ifs with hempty
    · exact ⟨0, rfl⟩
    · refine ⟨h.powers.size - 1, ?_⟩
      rw [Array.isEmpty_iff_size_eq_zero] at hempty
      rw [hh, Nat.sub_add_cancel (Nat.one_le_iff_ne_zero.mpr hempty)]
  obtain ⟨m, hm⟩ := hstart
  have hsize := congrArg List.length hm
  rw [List.length_map, List.length_range, Array.length_toList] at hsize
  refine ⟨m + 1 + (limit - (m + 1)), by omega, ?_⟩
  rw [reserve, hsize]
  exact appendPowers_eq _ hm

theorem sound_reserve (hh : h.Sound) (limit : Nat) : (h.reserve limit).Sound := by
  obtain ⟨size, -, hpowers⟩ := reserve_eq hh limit
  have hsize := congrArg List.length hpowers
  rw [List.length_map, List.length_range, Array.length_toList] at hsize
  rw [Sound, hpowers, hsize]

/-- The powers that were asked for are there. -/
theorem take_reserve (hh : h.Sound) (limit : Nat) :
    ((h.reserve limit).powers.take limit).toList = (List.range limit).map Digest.power := by
  obtain ⟨size, hle, hpowers⟩ := reserve_eq hh limit
  rw [Array.take_eq_extract, Array.toList_extract, hpowers, List.extract_eq_take_drop, List.drop_zero, Nat.sub_zero,
    ← List.map_take, List.take_range, Nat.min_eq_left hle]

theorem power_reserve (hh : h.Sound) {k limit : Nat} (hk : k < limit) :
    (h.reserve limit).power k = Digest.power k := by
  obtain ⟨size, hle, hpowers⟩ := reserve_eq hh limit
  rw [power, Array.getD_eq_getD_getElem?, ← Array.getElem?_toList, hpowers, List.getElem?_map,
    List.getElem?_range (Nat.lt_of_lt_of_le hk hle)]
  rfl

/-- A hasher that digests and joins lead to, from the one with an empty table. -/
inductive Reached : Hasher → Prop where
  /-- Nothing was hashed yet. -/
  | empty : Reached {}
  /-- A text was hashed. -/
  | digest {h : Hasher} (hh : Reached h) (s : String) : Reached (Hasher.digest s h).2
  /-- Two digests were joined. -/
  | join {h : Hasher} (hh : Reached h) (a b : Digest) : Reached (Hasher.join a b h).2

/-- Whatever was hashed, the table is sound. -/
theorem Reached.sound (hh : h.Reached) : h.Sound := by
  induction hh with
  | empty => exact sound_empty
  | digest _ s ih => exact sound_reserve ih _
  | join _ a b ih => exact sound_reserve ih _

end Hasher

/-! ### What hashing yields -/

namespace Hashing

variable {α β : Type} {a : α} {b : β} {m : Hashing α} {f : α → Hashing β}

/-- A computation gives one value from every sound table, and leaves a sound table. -/
def Yields (m : Hashing α) (a : α) : Prop :=
  ∀ h : Hasher, h.Sound → (m h).1 = a ∧ (m h).2.Sound

theorem Yields.pure (a : α) : Yields (Pure.pure a) a :=
  fun _ hh => ⟨rfl, hh⟩

theorem Yields.bind (hm : Yields m a) (hf : Yields (f a) b) : Yields (m >>= f) b := by
  intro h hh
  obtain ⟨rfl, hnext⟩ := hm h hh
  exact hf (m h).2 hnext

theorem yields_digest (s : String) : Yields (Hasher.digest s) (.ofText s) := by
  intro h hh
  refine ⟨?_, Hasher.sound_reserve hh _⟩
  rw [Hasher.digest, Digest.ofText, Hasher.take_reserve hh]

theorem yields_join (a b : Digest) : Yields (Hasher.join a b) (a.append b) := by
  intro h hh
  refine ⟨?_, Hasher.sound_reserve hh _⟩
  rw [Hasher.join, Digest.append, Hasher.power_reserve hh (Nat.lt_succ_self _)]

end Hashing

end Schemata
