/-!
# Registries

A registry keeps elements under names, in ascending order of the names. The name of an element may change
while the registry holds it, so every operation that files an element is told how to read its current
name; the registry goes on holding the element under the name it was filed with.

There are two ways to file an element. `insert` replaces whatever had the name. `register` refuses to
replace a *different* element, and so does `registerAll`, which files all elements of another registry or
none of them.
-/

namespace Schemata

/-- Elements filed under names. -/
structure Registry (α : Type) where
  /-- The names with their elements, by ascending name. -/
  entries : List (String × α) := []
deriving DecidableEq, Repr

/-- The name that two different elements claim. -/
structure DuplicateName where
  /-- The claimed name. -/
  name : String
deriving DecidableEq, Repr

/-- What the refusal says. -/
def DuplicateName.message (e : DuplicateName) : String :=
  "the element with the name " ++ e.name ++ " already in the set"

namespace Registry

variable {α : Type}

instance : EmptyCollection (Registry α) := ⟨{}⟩

instance : Inhabited (Registry α) := ⟨∅⟩

/-! ### Views -/

/-- The names, ascending. -/
def keys (r : Registry α) : List String :=
  r.entries.map Prod.fst

/-- The elements, by ascending name. -/
def elements (r : Registry α) : List α :=
  r.entries.map Prod.snd

/-- The number of elements. -/
def size (r : Registry α) : Nat :=
  r.entries.length

/-- Whether nothing is filed. -/
def isEmpty (r : Registry α) : Bool :=
  r.entries.isEmpty

/-- The element filed under a name. -/
def get? (r : Registry α) (name : String) : Option α :=
  r.entries.lookup name

/-- Whether an element is filed under a name. -/
def contains (r : Registry α) (name : String) : Bool :=
  (r.get? name).isSome

/-- The element with the least name. -/
def first? (r : Registry α) : Option α :=
  r.elements.head?

/-! ### Filing -/

/-- File an entry in its place, in place of an entry with the same name. -/
def putEntry (name : String) (x : α) : List (String × α) → List (String × α)
  | [] => [(name, x)]
  | (key, y) :: rest =>
    if name < key then (name, x) :: (key, y) :: rest
    else if name = key then (name, x) :: rest
    else (key, y) :: putEntry name x rest

/-- File an element under a name. -/
def put (r : Registry α) (name : String) (x : α) : Registry α :=
  ⟨putEntry name x r.entries⟩

/-- Remove what is filed under a name. -/
def erase (r : Registry α) (name : String) : Registry α :=
  ⟨r.entries.filter fun (key, _) => key != name⟩

/-- File an element under its name. -/
def insert (nameOf : α → String) (r : Registry α) (x : α) : Registry α :=
  r.put (nameOf x) x

/-- File every element of another registry under its name. -/
def insertAll (nameOf : α → String) (r other : Registry α) : Registry α :=
  other.elements.foldl (insert nameOf) r

/-- The registry of a list of elements; of two elements with one name the later stays. -/
def ofList (nameOf : α → String) (xs : List α) : Registry α :=
  xs.foldl (insert nameOf) ∅

variable [DecidableEq α]

/-- The name of the element if a different element is filed under it. -/
def conflict? (nameOf : α → String) (r : Registry α) (x : α) : Option String :=
  match r.get? (nameOf x) with
  | some y => if y = x then none else some (nameOf x)
  | none => none

/-- File an element unless a different element has its name. -/
def register (nameOf : α → String) (r : Registry α) (x : α) : Except DuplicateName (Registry α) :=
  match conflict? nameOf r x with
  | some name => .error ⟨name⟩
  | none => .ok (r.insert nameOf x)

/-- File all elements of another registry, or none if one of them meets a different element. The first
such name is reported. -/
def registerAll (nameOf : α → String) (r other : Registry α) : Except DuplicateName (Registry α) :=
  match other.elements.findSome? (conflict? nameOf r) with
  | some name => .error ⟨name⟩
  | none => .ok (r.insertAll nameOf other)

end Registry

end Schemata
