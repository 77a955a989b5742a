import Schemata.Text.Bytes

/-!
# Rename marks

A shared object is named by a segment that its holders have in common, `common`. The mark of a property
says where that segment stands in the names of the objects below the property: it starts `start` bytes into
the name. The first rename through a mark replaces the whole rest of a name and records where that rest
ended; later renames replace the same stretch of longer names and keep what follows it.
-/

namespace Schemata

/-- The stretch of bytes that renames replace. -/
structure Mark where
  /-- Whether a rename has fixed the end of the stretch. -/
  used : Bool := false
  /-- The number of bytes before the stretch. -/
  start : Nat := 0
  /-- The number of bytes before what follows the stretch, once the mark is used. -/
  stop : Nat := 0
deriving DecidableEq, Repr, Inhabited

namespace Mark

/-- The segment that shared objects are named by. -/
def common : String := "common"

/-- An unused mark after `n` bytes. -/
def after (n : Nat) : Mark :=
  { used := false, start := n, stop := n }

/-- Rename through a mark. There is no result, and nothing to change, if the mark does not fall between two
characters of the name or if the name already reads `common` there. -/
def rename? (m : Mark) (name : String) : Option (Mark × String) :=
  match Text.cutAt name.toList m.start with
  | none => none
  | some (front, back) =>
    if common.toList.isPrefixOf back then none
    else if m.used then
      some (m, String.ofList front ++ common ++ (Text.dropBytes? name m.stop).getD "")
    else
      some ({ m with used := true, stop := Text.byteLength name }, String.ofList front ++ common)

/-- By how many bytes a rename through the mark lengthens a name. -/
def growth (m : Mark) : Int :=
  if m.used then Text.byteLength common - ((m.stop : Int) - m.start) else 0

/-- The greatest position: positions have 64 bits. -/
def last : Nat := 0xFFFFFFFFFFFFFFFF

/-- Move a position, but neither below zero nor beyond the greatest position. -/
def move (position : Nat) (growth : Int) : Nat :=
  min (position + growth).toNat last

/-- Follow a rename through another mark, which moves both ends. -/
def follow (m other : Mark) : Mark :=
  { m with start := move m.start other.growth, stop := move m.stop other.growth }

end Mark

end Schemata
