import Schemata.Binary64

/-!
# Documents

A document is the dynamic value that schemas and settings are written as: a null, a boolean, an integer, a
floating-point number, a text, a list, a mapping with arbitrary keys, or any of these under a tag.

Most readers look *through* tags (`untag`, `text?`, `entries?`, `isNull`); the few that must see an untagged
value match on the constructor. A mapping is looked up by an untagged text key only, so it may hold a key
both with and without a tag.
-/

namespace Schemata

/-- A dynamic value. -/
inductive Document where
  /-- The null. -/
  | null
  /-- A boolean. -/
  | bool (b : Bool)
  /-- An integer. -/
  | int (n : Int)
  /-- A floating-point number. -/
  | float (x : Binary64)
  /-- A text. -/
  | text (s : String)
  /-- A list of values. -/
  | list (items : List Document)
  /-- Keys with values, in the order they were written. -/
  | mapping (entries : List (Document × Document))
  /-- A value under a tag. The tag is kept without its leading mark. -/
  | tagged (tag : String) (value : Document)
deriving Repr, Inhabited

/-- The entries of a mapping. -/
abbrev Entries := List (Document × Document)

namespace Document

/-! ### Views -/

/-- The value without the tags around it. -/
def untag : Document → Document
  | .tagged _ value => value.untag
  | value => value

/-- The text, seen through tags. -/
def text? (d : Document) : Option String :=
  match d.untag with
  | .text s => some s
  | _ => none

/-- The entries of a mapping, seen through tags. -/
def entries? (d : Document) : Option Entries :=
  match d.untag with
  | .mapping entries => some entries
  | _ => none

/-- Whether the value is the null, seen through tags. -/
def isNull (d : Document) : Bool :=
  match d.untag with
  | .null => true
  | _ => false

/-- The texts of an untagged list of texts. -/
def textList? : Document → Option (List String)
  | .list items => items.mapM text?
  | _ => none

/-- Whether a key is the given text, untagged. -/
def isKey (name : String) : Document → Bool
  | .text s => s == name
  | _ => false

/-- A tag without its leading mark. A tag that is nothing but the mark stays as it is. -/
def bareTag (tag : String) : String :=
  match tag.toList with
  | '!' :: c :: cs => String.ofList (c :: cs)
  | _ => tag

/-- The tag with a leading mark. -/
def tagText (tag : String) : String :=
  "!" ++ tag

mutual

/-- How deep lists and mappings are nested in the value. Tags do not count. -/
def depth : Document → Nat
  | .list items => depthOfItems items + 1
  | .mapping entries => depthOfEntries entries + 1
  | .tagged _ value => depth value
  | _ => 0

/-- The greatest depth of a list of values. -/
def depthOfItems : List Document → Nat
  | [] => 0
  | d :: ds => max (depth d) (depthOfItems ds)

/-- The greatest depth of the keys and values of entries. -/
def depthOfEntries : List (Document × Document) → Nat
  | [] => 0
  | (key, value) :: rest => max (max (depth key) (depth value)) (depthOfEntries rest)

end

/-- The text that the value is written as where a text is wanted, seen through tags. A list or a mapping has none. -/
def plainText? (d : Document) : Option String :=
  match d.untag with
  | .null => some "null"
  | .bool b => some (if b then "true" else "false")
  | .int n => some (toString n)
  | .float x => some x.compact
  | .text s => some s
  | _ => none

/-! ### Equality and construction -/

mutual

/-- Equality of values; floating-point numbers are compared as numbers, and the order of the entries of a mapping
does not matter. -/
def same : Document → Document → Bool
  | .null, .null => true
  | .bool a, .bool b => a == b
  | .int a, .int b => a == b
  | .float a, .float b => a.sameNumber b
  | .text a, .text b => a == b
  | .list as, .list bs => sameList as bs
  | .mapping as, .mapping bs => as.length == bs.length && includedEntries as bs
  | .tagged s a, .tagged t b => s == t && same a b
  | _, _ => false

/-- Equality of lists of values. -/
def sameList : List Document → List Document → Bool
  | [], [] => true
  | a :: as, b :: bs => same a b && sameList as bs
  | _, _ => false

/-- Whether every entry of a list is an entry of another list. -/
def includedEntries : List (Document × Document) → List (Document × Document) → Bool
  | [], _ => true
  | (key, value) :: rest, others =>
    (others.any fun (k, v) => same key k && same value v) && includedEntries rest others

end

end Document

namespace Entries

/-- The value under an untagged text key. -/
def get? (entries : Entries) (name : String) : Option Document :=
  (entries.find? fun (key, _) => key.isKey name).map Prod.snd

/-- Whether there is a value under an untagged text key. -/
def hasKey (entries : Entries) (name : String) : Bool :=
  (entries.get? name).isSome

/-- Give a key a value. A key that is present keeps its place and its spelling. -/
def put (entries : Entries) (key value : Document) : Entries :=
  if entries.any fun (k, _) => k.same key then
    entries.map fun (k, v) => if k.same key then (k, value) else (k, v)
  else
    entries ++ [(key, value)]

/-- The entries of a list of pairs; of two pairs with one key the later gives the value. -/
def ofPairs (pairs : List (Document × Document)) : Entries :=
  pairs.foldl (fun entries (key, value) => entries.put key value) []

end Entries

/-! ### Parts are smaller -/

/-- Removing tags does not enlarge a value. -/
theorem Document.sizeOf_untag_le (d : Document) : sizeOf d.untag ≤ sizeOf d := by
  induction d using Document.untag.induct with
  | case1 tag value ih =>
    simp only [Document.untag, Document.tagged.sizeOf_spec]
    omega
  | case2 value h =>
    cases value <;> simp_all [Document.untag]

/-- The entries of a mapping are smaller than the value they are in. -/
theorem Document.sizeOf_entries?_lt {d : Document} {entries : Entries} (h : d.entries? = some entries) :
    sizeOf entries < sizeOf d := by
  have hle := d.sizeOf_untag_le
  unfold Document.entries? at h
  split at h
  · rename_i es heq
    simp only [Option.some.injEq] at h
    subst h
    rw [heq] at hle
    simp only [Document.mapping.sizeOf_spec] at hle
    omega
  · simp at h

/-- A value is smaller than the entries it is found in. -/
theorem Entries.sizeOf_get?_lt {entries : Entries} {name : String} {d : Document}
    (h : entries.get? name = some d) : sizeOf d < sizeOf entries := by
  obtain ⟨⟨k, v⟩, hfind, hv⟩ := Option.map_eq_some_iff.1 h
  have hmem := List.mem_of_find?_eq_some hfind
  have hlt := List.sizeOf_lt_of_mem hmem
  simp only at hv
  subst hv
  simp only [Prod.mk.sizeOf_spec] at hlt
  omega

end Schemata
