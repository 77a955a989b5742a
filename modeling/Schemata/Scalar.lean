import Schemata.Text.Quoted
import Schemata.TypeClass

/-!
# Scalars and their default literals

A scalar has a kind, two flags and possibly a default literal. It can be null if its type admits the null or
if a value need not be present. The fingerprint of a scalar lists the kind, whether it can be null, and the
default; the two flags themselves do not appear in it.
-/

namespace Schemata

/-- A default value. -/
inductive Literal where
  /-- A text. -/
  | string (s : String)
  /-- An integer. -/
  | int (n : Int)
  /-- A floating-point number. -/
  | float (x : Binary64)
  /-- A boolean. -/
  | bool (b : Bool)
deriving DecidableEq, Repr

namespace Literal

/-- Whether an integer fits into 64 bits with a sign. -/
def fitsInt64 (n : Int) : Bool :=
  -0x8000000000000000 ≤ n && n < 0x8000000000000000

/-- The literal that a value stands for, seen through tags. An integer that does not fit becomes the
nearest floating-point number; the null, lists and mappings stand for none. -/
def ofDocument? : Document → Option Literal
  | .text s => some (.string s)
  | .bool b => some (.bool b)
  | .int n => some (if fitsInt64 n then .int n else .float (.ofInt n))
  | .float x => some (.float x)
  | .tagged _ value => ofDocument? value
  | .null | .list _ | .mapping _ => none

/-- The literal as source text. -/
def render : Literal → String
  | .string s => Text.quoted s
  | .int n => toString n
  | .float x => x.render
  | .bool b => if b then "true" else "false"

end Literal

/-- A leaf of a definition. -/
structure Scalar where
  /-- The kind of its values. -/
  kind : ScalarKind
  /-- Whether a value must be present. -/
  required : Bool := false
  /-- Whether the type admits the null. -/
  nullable : Bool := false
  /-- The default literal. -/
  default : Option Literal := none
deriving DecidableEq, Repr, Inhabited

namespace Scalar

/-- Whether the scalar can be null: its type admits it, or no value need be present. -/
def isNull (s : Scalar) : Bool :=
  s.nullable || !s.required

/-- The scalar with a default, which makes a value present. -/
def withDefault (s : Scalar) (literal : Literal) : Scalar :=
  { s with default := some literal, required := true }

/-- The kind, whether the scalar can be null, and the default, behind a mark and between commas. -/
def fingerprint (s : Scalar) : String :=
  "#" ++ s.kind.name ++ "," ++ (if s.isNull then "true" else "false") ++ "," ++
    (s.default.map Literal.render).getD ""

end Scalar

end Schemata
