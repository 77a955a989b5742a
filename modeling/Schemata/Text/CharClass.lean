import Schemata.Text.Tables.Alphanumeric
import Schemata.Text.Tables.Case
import Schemata.Text.Tables.Unprintable

/-!
# Classes and case of characters

Words in names are found and recased over all of Unicode. ASCII characters are decided directly, every
other character by the tables of `Schemata.Text.Tables`.
-/

namespace Schemata.Text

/-- Whether some range of the table holds the code point. -/
def inRanges (table : List (Nat × Nat)) (n : Nat) : Bool :=
  table.any fun (first, last) => first ≤ n && n ≤ last

/-- Whether the strided range from `first` to `last` holds the code point. -/
def inStride (first last step n : Nat) : Bool :=
  first ≤ n && n ≤ last && (n - first) % step == 0

/-- Letters and digits. -/
def isAlphanumeric (c : Char) : Bool :=
  c.isAlphanum || inRanges Tables.alphanumeric c.toNat

/-- Upper-case letters. -/
def isUppercase (c : Char) : Bool :=
  c.isUpper || Tables.uppercase.any fun (first, last, step) => inStride first last step c.toNat

/-- Lower-case letters. -/
def isLowercase (c : Char) : Bool :=
  c.isLower || Tables.lowercase.any fun (first, last, step) => inStride first last step c.toNat

/-- Characters that quoted text shows by their number. -/
def isUnprintable (c : Char) : Bool :=
  c.toNat < 0x20 || c.toNat == 0x7F || inRanges Tables.unprintable c.toNat

/-- The counterpart of a character by a table of shifts and a table of longer counterparts. A character
that neither table mentions is its own counterpart. -/
def counterpart (shifts : List (Nat × Nat × Nat × Int)) (expanded : List (Nat × List Nat)) (c : Char) :
    List Char :=
  match expanded.find? fun (code, _) => code == c.toNat with
  | some (_, codes) => codes.map Char.ofNat
  | none =>
    match shifts.find? fun (first, last, step, _) => inStride first last step c.toNat with
    | some (_, _, _, delta) => [Char.ofNat (c.toNat + delta).toNat]
    | none => [c]

/-- The upper-case form of a character, which may have several characters. -/
def upcase (c : Char) : List Char :=
  if c.toNat < 0x80 then [c.toUpper] else counterpart Tables.upperShift Tables.expandedUpper c

/-- The lower-case form of a character, which may have several characters. -/
def downcase (c : Char) : List Char :=
  if c.toNat < 0x80 then [c.toLower] else counterpart Tables.lowerShift Tables.expandedLower c

end Schemata.Text
