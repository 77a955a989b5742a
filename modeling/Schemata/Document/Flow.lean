import Schemata.Document

/-!
# Documents in flow notation

The reader of the notation in which lists stand between brackets, mappings between braces and texts between double
quotes. Numbers with a fraction or an exponent are floating-point numbers. The whole of a text must be one document.
-/

namespace Schemata.Document.Flow

/-- The text without the blanks at its start. -/
def skipBlanks : List Char → List Char
  | [] => []
  | c :: cs => if c = ' ' || c = '\t' || c = '\n' || c = '\r' then skipBlanks cs else c :: cs

/-- The value of a hexadecimal digit. -/
def hexValue? (c : Char) : Option Nat :=
  if c.isDigit then some (c.toNat - '0'.toNat)
  else if 'a' ≤ c && c ≤ 'f' then some (c.toNat - 'a'.toNat + 10)
  else if 'A' ≤ c && c ≤ 'F' then some (c.toNat - 'A'.toNat + 10)
  else none

/-- The number that four hexadecimal digits stand for, and the rest of the text. -/
def hex4? : List Char → Option (Nat × List Char)
  | a :: b :: c :: d :: rest => do
    return ((((← hexValue? a) * 16 + (← hexValue? b)) * 16 + (← hexValue? c)) * 16 + (← hexValue? d), rest)
  | _ => none

/-- The character that a code stands for, together with a second code if the first is half of a pair. -/
def unicode? (code : Nat) (rest : List Char) : Option (Char × List Char) :=
  if 0xD800 ≤ code && code < 0xDC00 then
    match rest with
    | '\\' :: 'u' :: rest => do
      let (low, rest) ← hex4? rest
      if 0xDC00 ≤ low && low < 0xE000 then
        return (Char.ofNat (0x10000 + (code - 0xD800) * 0x400 + (low - 0xDC00)), rest)
      else none
    | _ => none
  else some (Char.ofNat code, rest)

/-- The character that an escape stands for, and the rest of the text. -/
def escape? : List Char → Option (Char × List Char)
  | 'n' :: rest => some ('\n', rest)
  | 't' :: rest => some ('\t', rest)
  | 'r' :: rest => some ('\r', rest)
  | 'b' :: rest => some ('\x08', rest)
  | 'f' :: rest => some ('\x0c', rest)
  | 'u' :: rest => (hex4? rest).bind fun (code, rest) => unicode? code rest
  | c :: rest => if c = '"' || c = '\\' || c = '/' then some (c, rest) else none
  | [] => none

/-- Read a text up to its closing quote, in at most `bound` steps. -/
def text? : (bound : Nat) → (read : List Char) → List Char → Option (String × List Char)
  | 0, _, _ => none
  | _, _, [] => none
  | _ + 1, read, '"' :: rest => some (String.ofList read.reverse, rest)
  | bound + 1, read, '\\' :: rest =>
    (escape? rest).bind fun (c, rest) => text? bound (c :: read) rest
  | bound + 1, read, c :: rest => text? bound (c :: read) rest

/-- The characters that numbers and words are made of. -/
def isPlain (c : Char) : Bool :=
  c.isAlphanum || c = '-' || c = '+' || c = '.'

/-- The document that a number or a word stands for. -/
def plain? (word : String) : Option Document :=
  match word with
  | "null" => some .null
  | "true" => some (.bool true)
  | "false" => some (.bool false)
  | _ =>
    if word.toList.any fun c => c = '.' || c = 'e' || c = 'E' then (Binary64.ofText? word).map .float
    else word.toInt?.map .int

mutual

/-- Read a document, in at most `bound` steps. -/
def value? : (bound : Nat) → List Char → Option (Document × List Char)
  | 0, _ => none
  | bound + 1, cs =>
    match skipBlanks cs with
    | '"' :: rest => (text? bound [] rest).map fun (s, rest) => (.text s, rest)
    | '[' :: rest =>
      match skipBlanks rest with
      | ']' :: rest => some (.list [], rest)
      | rest => (items? bound rest).map fun (items, rest) => (.list items, rest)
    | '\x7b' :: rest =>
      match skipBlanks rest with
      | '\x7d' :: rest => some (.mapping [], rest)
      | rest => (pairs? bound rest).map fun (pairs, rest) => (.mapping (Entries.ofPairs pairs), rest)
    | rest =>
      (plain? (String.ofList (rest.takeWhile isPlain))).map fun d => (d, rest.dropWhile isPlain)

/-- Read the documents of a list up to its closing bracket. -/
def items? : (bound : Nat) → List Char → Option (List Document × List Char)
  | 0, _ => none
  | bound + 1, cs => do
    let (d, rest) ← value? bound cs
    match skipBlanks rest with
    | ',' :: rest => (items? bound rest).map fun (items, rest) => (d :: items, rest)
    | ']' :: rest => some ([d], rest)
    | _ => none

/-- Read the entries of a mapping up to its closing brace. -/
def pairs? : (bound : Nat) → List Char → Option (List (Document × Document) × List Char)
  | 0, _ => none
  | bound + 1, cs => do
    let (key, rest) ← value? bound cs
    match skipBlanks rest with
    | ':' :: rest =>
      let (d, rest) ← value? bound rest
      match skipBlanks rest with
      | ',' :: rest => (pairs? bound rest).map fun (pairs, rest) => ((key, d) :: pairs, rest)
      | '\x7d' :: rest => some ([(key, d)], rest)
      | _ => none
    | _ => none

end

/-- Read a text that is one document. -/
def parse? (text : String) : Option Document :=
  let cs := text.toList
  (value? (2 * cs.length + 2) cs).bind fun (d, rest) => if (skipBlanks rest).isEmpty then some d else none

end Schemata.Document.Flow
