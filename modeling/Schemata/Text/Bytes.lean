/-!
# Text measured in bytes

Names and file contents are measured in the bytes of their UTF-8 form, while the text itself stays a
sequence of characters. This module has the two measures that the rest of the library needs:

* `bytes` and `byteLength`, the encoded form and its length;
* `cutAt`, which divides a character sequence after a number of bytes, provided that the number falls
  between two characters.
-/

namespace Schemata.Text

/-- The bytes of the UTF-8 form of a text. -/
def bytes (s : String) : List UInt8 :=
  s.toUTF8.data.toList

/-- The length of a text in bytes. -/
def byteLength (s : String) : Nat :=
  s.utf8ByteSize

/-- Divide a character sequence after `n` bytes. There is no result if the sequence is shorter or if
the `n`-th byte lies inside a character. -/
def cutAt : List Char → Nat → Option (List Char × List Char)
  | cs, 0 => some ([], cs)
  | [], _ + 1 => none
  | c :: cs, n + 1 =>
    if c.utf8Size ≤ n + 1 then
      (cutAt cs (n + 1 - c.utf8Size)).map fun (front, back) => (c :: front, back)
    else
      none

/-- The text that remains after `n` bytes, if `n` falls between two characters. -/
def dropBytes? (s : String) (n : Nat) : Option String :=
  (cutAt s.toList n).map fun (_, back) => String.ofList back

end Schemata.Text
