import Schemata.Go.Declaration
import Schemata.Proofs.Casing

/-!
# Composed names

An underscore is neither letter nor digit, so it ends a piece of a name, and no word goes on behind it: neither the run of
case nor the part of a word that has been read is carried over. The words of a path are therefore those of its segments,
one segment after the other (`Text.words_append_cons`), and since words are recased one by one, a Go name is made of the Go
names of the segments. What is named by a verb and a property, or by an object and a suffix, bears the name of the
property, or of the object, unchanged (`Go.goNames_compose`).
-/

namespace Schemata

namespace Text

section Separated

variable {separator : Char} (hseparator : isAlphanumeric separator = false) (front back : List Char)

include hseparator

/-- A separator divides: the pieces of what stands around it are the pieces of both sides. -/
theorem pieces_append_cons : pieces (front ++ separator :: back) = pieces front ++ pieces back := by
  induction front with
  | nil =>
    obtain ⟨piece, rest, hpieces⟩ := List.exists_cons_of_ne_nil (pieces_ne_nil back)
    simp [pieces, hpieces, hseparator]
  | cons c front ih =>
    obtain ⟨piece, rest, hpieces⟩ := List.exists_cons_of_ne_nil (pieces_ne_nil front)
    simp only [List.cons_append, pieces, ih, hpieces]
    split_ifs <;> rfl

theorem words_append_cons : words (front ++ separator :: back) = words front ++ words back := by
  rw [words, pieces_append_cons hseparator, List.flatMap_append, words, words]

end Separated

/-- Words are capitalized one by one, so an underscore leaves no trace. -/
theorem upperCamel_append_underscore (front back : String) :
    upperCamel (front ++ "_" ++ back) = upperCamel front ++ upperCamel back := by
  have hchars : (front ++ "_" ++ back).toList = front.toList ++ '_' :: back.toList := by simp
  have hunderscore : isAlphanumeric '_' = false := by decide +kernel
  rw [upperCamel, hchars, words_append_cons hunderscore, List.flatMap_append, String.ofList_append, upperCamel, upperCamel]

@[simp]
theorem upperCamel_empty : upperCamel "" = "" :=
  rfl

end Text

namespace Naming

@[simp]
theorem underscored_empty : underscored "" = "" := by
  simp [← String.toList_inj, underscored]

theorem underscored_append (front back : String) : underscored (front ++ back) = underscored front ++ underscored back := by
  simp [← String.toList_inj, underscored]

/-- The Go name of a path is made of the names of its two parts. This goes for parts without words too. -/
theorem goName_eq_append (path segment : String) :
    goName path segment = Text.upperCamel (underscored path) ++ Text.upperCamel (underscored segment) := by
  by_cases hpath : path = ""
  · subst hpath
    rw [underscored_empty, Text.upperCamel_empty, String.empty_append]
    rfl
  · have hjoin : join path segment = path ++ "_" ++ segment := by
      rw [join, if_neg (by simpa using hpath)]
    have hunderscore : underscored "_" = "_" := by simp [← String.toList_inj, underscored]
    rw [goName, hjoin, underscored_append, underscored_append, hunderscore, Text.upperCamel_append_underscore]

theorem goName_empty (name : String) : goName name "" = Text.upperCamel (underscored name) := by
  rw [goName_eq_append, underscored_empty, Text.upperCamel_empty, String.append_empty]

theorem goName_append (path segment : String) : goName path segment = goName path "" ++ goName segment "" := by
  rw [goName_eq_append, goName_empty, goName_empty]

end Naming

namespace Go

open Naming

theorem RecordName.name_append (r : RecordName) (suffix : String) : r.name suffix = r.name "" ++ goName suffix "" :=
  goName_append r.typeName suffix

theorem goName_get (name : String) : goName "get" name = "Get" ++ goName name "" := by
  rw [goName_append, show goName "get" "" = "Get" by decide +kernel]

theorem goName_set (name : String) : goName "set" name = "Set" ++ goName name "" := by
  rw [goName_append, show goName "set" "" = "Set" by decide +kernel]

/-- **Go names compose.** The Go name of a path with a segment behind it is the Go name of the path and, right behind it,
that of the segment. Hence accessors are named by a verb and the name of the field. A struct is declared under the name of
the object and, right behind it, that of the suffix; its interface and its constructor bear the same name behind a letter
and a verb. An object without properties has neither: it is shown as a value of any type. -/
theorem goNames_compose :
    (∀ path segment, goName path segment = goName path "" ++ goName segment "") ∧
    (∀ (m : Member) (suffix : String),
      m.getterHeader suffix = "Get" ++ m.goName ++ "() " ++ m.form.fieldInterfaceType suffix ∧
      m.setterHeader suffix false = "Set" ++ m.goName ++ "(" ++ m.form.fieldInterfaceType suffix ++ ")" ∧
      m.setterHeader suffix true =
        "Set" ++ m.goName ++ "(" ++ variableName m.name ++ " " ++ m.form.fieldInterfaceType suffix ++ ")") ∧
    (∀ (r : RecordName) (suffix : String),
      r.name suffix = r.name "" ++ goName suffix "" ∧
      r.goType suffix = (if r.isEmpty then any else "*" ++ (r.name "" ++ goName suffix "")) ∧
      r.interfaceType suffix = (if r.isEmpty then any else "I" ++ (r.name "" ++ goName suffix "")) ∧
      r.defaultValue suffix =
        (if r.isEmpty then "map[string]interface\x7b\x7d\x7b\x7d" else "Make" ++ (r.name "" ++ goName suffix "") ++ "()")) ∧
    ∀ (r : Record) (suffix : String),
      (∃ fields, r.struct suffix = "type " ++ (r.name.name "" ++ goName suffix "") ++ " struct \x7b\n" ++ fields) ∧
      (∃ accessors, r.interface suffix =
        "type " ++ (if r.name.isEmpty then any else "I" ++ (r.name.name "" ++ goName suffix "")) ++ " interface \x7b\n" ++
          accessors) ∧
      ∃ body, r.constructor suffix = "func Make" ++ (r.name.name "" ++ goName suffix "") ++ "() " ++ body := by
  refine ⟨goName_append, fun m suffix => ⟨?_, ?_, ?_⟩, fun r suffix => ⟨r.name_append suffix, ?_, ?_, ?_⟩,
    fun r suffix => ⟨?_, ?_, ?_⟩⟩
  · rw [Member.getterHeader, goName_get, Member.goName]
  · rw [Member.setterHeader, goName_set, Member.goName]
    simp
  · rw [Member.setterHeader, goName_set, Member.goName]
    simp [String.append_assoc]
  · rw [RecordName.goType, r.name_append]
  · rw [RecordName.interfaceType, r.name_append]
  · rw [RecordName.defaultValue, r.name_append]
  · rw [Record.struct, RecordName.name_append, String.append_assoc]
    exact ⟨_, rfl⟩
  · rw [Record.interface, RecordName.interfaceType, RecordName.name_append, String.append_assoc]
    exact ⟨_, rfl⟩
  · unfold Record.constructor
    simp only [r.name.name_append suffix, String.append_assoc, String.append_right_inj, exists_eq']

end Go

end Schemata
