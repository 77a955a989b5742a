import Schemata.Document

/-!
# Type tokens

The `type` of a definition is one token or a list of tokens. The tokens `array` and `object` select a
structure, five others a scalar kind of their own, and any other token is passed through as a kind. In a list
the null and the token `null` make the type nullable, and the first other token is the one that counts.
-/

namespace Schemata

/-- The kind of a scalar. -/
inductive ScalarKind where
  /-- Texts. -/
  | string
  /-- Integers. -/
  | int
  /-- Floating-point numbers. -/
  | float
  /-- Booleans. -/
  | bool
  /-- Values of any type. -/
  | abstract
  /-- A token passed through as it is. -/
  | other (token : String)
deriving DecidableEq, Repr, Inhabited

/-- The name of a kind. -/
def ScalarKind.name : ScalarKind → String
  | .string => "string"
  | .int => "int"
  | .float => "float"
  | .bool => "bool"
  | .abstract => "object"
  | .other token => token

/-- What a type token selects. -/
inductive TypeToken where
  /-- A sequence of one element type. -/
  | array
  /-- A record of named properties. -/
  | object
  /-- A scalar. -/
  | scalar (kind : ScalarKind)
deriving DecidableEq, Repr

/-- What a token selects. -/
def TypeToken.ofText (token : String) : TypeToken :=
  match token with
  | "array" => .array
  | "object" => .object
  | "string" => .scalar .string
  | "integer" => .scalar .int
  | "number" => .scalar .float
  | "boolean" => .scalar .bool
  | "abstract" => .scalar .abstract
  | _ => .scalar (.other token)

/-- A type: its token, and whether it admits the null. -/
structure TypeClass where
  /-- What the token selects. -/
  token : TypeToken
  /-- Whether the null is admitted. -/
  nullable : Bool
deriving DecidableEq, Repr

namespace TypeClass

/-- Whether an element of a list of tokens admits the null. -/
def admitsNull : Document → Bool
  | .null => true
  | .text token => token == "null"
  | _ => false

/-- The token that an element of a list stands for; the token `null` stands for none. -/
def token? : Document → Option String
  | .text token => if token == "null" then none else some token
  | _ => none

/-- The type that a value of `type` describes, if it describes one. Tags are not looked through. -/
def ofDocument? : Document → Option TypeClass
  | .text token => some ⟨.ofText token, false⟩
  | .list tokens => (tokens.findSome? token?).map fun token => ⟨.ofText token, tokens.any admitsNull⟩
  | _ => none

end TypeClass

end Schemata
