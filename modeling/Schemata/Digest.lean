import Schemata.Text.Bytes

/-!
# Digests of text

The digest of a text is the polynomial `∑ sᵢ · baseⁱ` of its bytes modulo a prime below `2³²`, together with
the length of the text. With the length at hand the digest of a concatenation follows from the digests of
the parts: `Hasher.join` shifts the second value by a power of the base.

A `Hasher` keeps the powers that it has needed so far.
-/

namespace Schemata

/-- The polynomial of a text and its length in bytes. -/
structure Digest where
  /-- The value of the polynomial. -/
  value : UInt32 := 0
  /-- The number of bytes. -/
  length : Nat := 0
deriving DecidableEq, Repr, Inhabited

namespace Digest

/-- The prime that values are reduced by. -/
def modulus : UInt32 := 0xFFFFFFFB

/-- The base of the polynomial. -/
def base : UInt32 := 0x101

/-- The sum modulo `m` of two numbers below `m`. The modulus is subtracted at most once. -/
def addMod (x y m : UInt32) : UInt32 :=
  let sum := x.toNat + y.toNat
  if m.toNat ≤ sum then (sum - m.toNat).toUInt32 else sum.toUInt32

/-- The product modulo `m`. -/
def mulMod (x y m : UInt32) : UInt32 :=
  (x.toNat * y.toNat % m.toNat).toUInt32

/-- Digests are ordered by value, then by length. -/
protected def compare (a b : Digest) : Ordering :=
  (compare a.value b.value).then (compare a.length b.length)

instance : Ord Digest := ⟨Digest.compare⟩

/-- Eight hexadecimal digits of the value, a slash and the length. -/
def render (d : Digest) : String :=
  let digits := Nat.toDigits 16 d.value.toNat
  String.ofList (List.replicate (8 - digits.length) '0' ++ digits) ++ "/" ++ d.length.repr

end Digest

/-- The powers of the base that have been needed so far, the `k`-th at position `k`. -/
structure Hasher where
  /-- The known powers. -/
  powers : Array UInt32 := #[]
deriving DecidableEq, Repr, Inhabited

/-- A computation that may extend the table of powers. -/
abbrev Hashing := StateM Hasher

namespace Hasher

/-- Append the next `n` powers. -/
def appendPowers : Nat → Array UInt32 → Array UInt32
  | 0, table => table
  | n + 1, table =>
    appendPowers n (table.push (Digest.mulMod (table.back?.getD 1) Digest.base Digest.modulus))

/-- Make the table hold at least one and at least `limit` powers. -/
def reserve (h : Hasher) (limit : Nat) : Hasher :=
  let table := if h.powers.isEmpty then #[1] else h.powers
  ⟨appendPowers (limit - table.size) table⟩

/-- The number of powers in the table. -/
def tableSize (h : Hasher) : Nat :=
  h.powers.size

/-- The `k`-th power, read from the table. -/
def power (h : Hasher) (k : Nat) : UInt32 :=
  h.powers.getD k 0

/-- The polynomial of bytes with the given powers. -/
def weigh (bytes : List UInt8) (powers : List UInt32) : UInt32 :=
  (bytes.zip powers).foldl
    (fun sum (byte, power) =>
      Digest.addMod sum (Digest.mulMod byte.toUInt32 power Digest.modulus) Digest.modulus)
    0

/-- The digest of a text. -/
def digest (s : String) : Hashing Digest := fun h =>
  let bytes := Text.bytes s
  let h := h.reserve bytes.length
  (⟨weigh bytes (h.powers.take bytes.length).toList, bytes.length⟩, h)

/-- The digest of the concatenation of two texts, from their digests. -/
def join (a b : Digest) : Hashing Digest := fun h =>
  let h := h.reserve (a.length + 1)
  let shifted := Digest.mulMod b.value (h.power a.length) Digest.modulus
  (⟨Digest.addMod a.value shifted Digest.modulus, a.length + b.length⟩, h)

end Hasher

end Schemata
