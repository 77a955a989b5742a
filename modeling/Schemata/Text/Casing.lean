import Schemata.Text.CharClass

/-!
# Words of a name, and camel case

A name is divided into words at every character that is neither letter nor digit, and inside a run of
letters and digits at the seams of its case: before an upper-case letter that follows a lower-case run
(`fooBar` is `foo`, `Bar`) and before the last letter of an upper-case run that a lower-case letter
follows (`HTTPServer` is `HTTP`, `Server`). Characters without case continue the run they stand in.

`upperCamel` writes the words one after the other, each capitalized; `lowerCamel` writes the first one in
lower case.
-/

namespace Schemata.Text

/-- The case of the run that a walk through a name is in. -/
inductive CaseRun where
  /-- At the start of a word. -/
  | fresh
  /-- After a lower-case letter. -/
  | lower
  /-- After an upper-case letter. -/
  | upper
deriving DecidableEq, Repr

/-- The run after one more character; a character without case continues the run. -/
def CaseRun.next (run : CaseRun) (c : Char) : CaseRun :=
  if isLowercase c then .lower else if isUppercase c then .upper else run

/-- Divide at the characters that are neither letters nor digits. -/
def pieces : List Char → List (List Char)
  | [] => [[]]
  | c :: cs =>
    match pieces cs with
    | [] => [[c]]
    | piece :: rest =>
      if isAlphanumeric c then (c :: piece) :: rest else [] :: piece :: rest

/-- The words of a piece, given the run and the part of the current word that has been read, in reverse. -/
def wordsFrom (run : CaseRun) (word : List Char) : List Char → List (List Char)
  | [] => if word.isEmpty then [] else [word.reverse]
  | [c] => [(c :: word).reverse]
  | c :: next :: rest =>
    if run.next c = .lower ∧ isUppercase next then
      (c :: word).reverse :: wordsFrom .fresh [] (next :: rest)
    else if run = .upper ∧ isUppercase c ∧ isLowercase next then
      word.reverse :: wordsFrom .fresh [c] (next :: rest)
    else
      wordsFrom (run.next c) (c :: word) (next :: rest)

/-- The words of a name, in order. -/
def words (cs : List Char) : List (List Char) :=
  (pieces cs).flatMap (wordsFrom .fresh [])

/-- A word in lower case. A capital sigma that ends the word takes its final form. -/
def lowered : List Char → List Char
  | [] => []
  | ['Σ'] => ['ς']
  | c :: cs => downcase c ++ lowered cs

/-- A word with its first character in upper case and the others in lower case. -/
def capitalized : List Char → List Char
  | [] => []
  | c :: cs => upcase c ++ lowered cs

/-- The words of a name, capitalized and written one after the other. -/
def upperCamel (name : String) : String :=
  String.ofList ((words name.toList).flatMap capitalized)

/-- The words of a name written one after the other, the first in lower case and the others capitalized. -/
def lowerCamel (name : String) : String :=
  match words name.toList with
  | [] => ""
  | first :: rest => String.ofList (lowered first ++ rest.flatMap capitalized)

end Schemata.Text
