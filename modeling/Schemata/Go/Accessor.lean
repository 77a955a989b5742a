import Schemata.Go.Type

/-!
# Bodies of accessors

A getter turns a stored value into one of the interface type, a setter the other way round. Only sequences of
objects need work: they are copied element by element, one loop for every level of the sequence, each with an
index variable of its own. Everything else is returned or assigned as it is.
-/

namespace Schemata.Go

/-- Tabs to a depth. -/
def indent (depth : Nat) : String :=
  String.ofList (List.replicate depth '\t')

/-- The index variable of the loop at a depth: `i` at the first, then the letters after it. -/
def indexVariable (depth : Nat) : Char :=
  let first := 'i'.toNat
  let last := 0xFF
  let offset := if depth - 1 ≤ last then depth - 1 else last - first
  Char.ofNat (min (first + offset) last)

/-- An expression indexed by the index variable of a depth. -/
def indexed (expression : String) (depth : Nat) : String :=
  expression ++ "[" ++ String.singleton (indexVariable depth) ++ "]"

/-- What the result of a getter is handed to: an element inside a loop, a new variable, or the caller. -/
def resultTarget (shown : String) (depth : Nat) (create : Bool) : String :=
  if 1 < depth then shown ++ " ="
  else if create then shown ++ " :="
  else "return"

/-- A sequence is made and filled element by element. -/
def copyLoop (target type sequence body : String) (depth : Nat) : String :=
  indent depth ++ target ++ " make(" ++ type ++ ", len(" ++ sequence ++ "))\n" ++
    indent depth ++ "for " ++ String.singleton (indexVariable depth) ++ " := range " ++ sequence ++
    " \x7b\n" ++ body ++ "\n" ++ indent depth ++ "\x7d"

namespace Form

/-- The body of a getter: hand `stored` on as `shown`. -/
def getter (suffix : String) : Form → (stored shown : String) → (depth : Nat) → String
  | .list element, stored, shown, depth =>
    if depth = 1 && !element.containsObject then
      indent depth ++ "return " ++ stored
    else
      let body := element.getter suffix (indexed stored depth) (indexed shown depth) (depth + 1)
      let tail := if depth = 1 then "\n" ++ indent depth ++ "return " ++ shown else ""
      copyLoop (resultTarget shown depth true) ((Form.list element).interfaceType suffix) stored body
        depth ++ tail
  | _, stored, shown, depth =>
    indent depth ++ resultTarget shown depth false ++ " " ++ stored

/-- The body of a setter: store `shown` in `stored`. -/
def setter (suffix : String) : Form → (stored shown : String) → (depth : Nat) → String
  | .scalar _, stored, shown, depth => indent depth ++ stored ++ " = " ++ shown
  | .record name, stored, shown, depth =>
    if name.isEmpty then
      indent depth ++ stored ++ " = " ++ shown
    else
      indent depth ++ stored ++ ", _ = " ++ shown ++ ".(" ++ name.goType suffix ++ ")"
  | .list element, stored, shown, depth =>
    if element.containsObject then
      let body := element.setter suffix (indexed stored depth) (indexed shown depth) (depth + 1)
      copyLoop (stored ++ " =") ((Form.list element).goType suffix) shown body depth
    else
      indent depth ++ stored ++ " = " ++ shown

end Form

end Schemata.Go
