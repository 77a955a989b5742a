import Schemata.Proofs.Result
import Schemata.Shape

/-!
# Names in definition trees

The object types of a definition tree are named by the paths down to them, and the mark of every field stands behind
the path of its object (`Shape.Named`). Every tree that is read from a definition is named in this way.
-/

namespace Schemata.Shape

mutual

/-- The objects of a tree that stands at a path are named by their paths. -/
def Named (path : String) : Shape → Prop
  | .scalar _ => True
  | .array element => element.Named path
  | .object typeName _ fields => typeName = path ∧ NamedAll path fields

/-- The trees below the fields of an object are named by the paths through the fields, and the marks of the fields
stand behind the path of the object. -/
def NamedAll (path : String) : List (Field × Shape) → Prop
  | [] => True
  | (field, shape) :: rest =>
    field.mark = .after (Text.byteLength (Naming.join path "")) ∧ shape.Named (Naming.join path field.name) ∧
      NamedAll path rest

end

mutual

theorem named_of_parseItem {ctx : Context} {type : TypeClass} {data : Entries} {shape : Shape}
    (h : parseItem ctx type data = .ok shape) : shape.Named ctx.path := by
  rw [parseItem] at h
  split at h
  · obtain rfl := Except.ok.inj h
    trivial
  · split at h
    · cases h
    · rename_i raw hitems
      split at h
      · cases h
      · rename_i items hentries
        have := Entries.sizeOf_get?_lt hitems
        have := Document.sizeOf_entries?_lt hentries
        split at h
        · cases h
        · split at h
          · cases h
          · rename_i element _
            obtain ⟨inner, helement, rfl⟩ := map_eq_ok_iff.mp h
            rw [Named]
            exact named_of_parseItem helement
  · split at h
    · cases h
    · rename_i required _
      split at h
      · obtain rfl := Except.ok.inj h
        exact ⟨rfl, trivial⟩
      · rename_i raw hproperties
        split at h
        · cases h
        · rename_i definitions hentries
          have := Entries.sizeOf_get?_lt hproperties
          have := Document.sizeOf_entries?_lt hentries
          obtain ⟨fields, hfields, rfl⟩ := map_eq_ok_iff.mp h
          exact ⟨rfl, namedAll_of_parseFields hfields⟩
termination_by 2 * sizeOf data

/-- A field that is read has the name and the mark of its place, and a tree that is named by the path through it. -/
theorem named_of_parseField {ctx : Context} {name : String} {data : Entries} {field : Field} {shape : Shape}
    (h : parseField ctx name data = .ok (field, shape)) :
    field.name = name ∧ field.mark = .after (Text.byteLength (Naming.join ctx.path "")) ∧
      shape.Named (Naming.join ctx.path name) := by
  rw [parseField] at h
  split at h
  · cases h
  · split at h
    · cases h
    · rename_i type _
      obtain ⟨inner, hitem, heq⟩ := map_eq_ok_iff.mp h
      obtain ⟨rfl, rfl⟩ := Prod.mk.inj heq
      exact ⟨rfl, rfl, named_of_parseItem hitem⟩
termination_by 2 * sizeOf data + 1

theorem namedAll_of_parseFields {ctx : Context} {required : List String} {definitions : Entries}
    {fields : List (Field × Shape)} (h : parseFields ctx required definitions = .ok fields) :
    NamedAll ctx.path fields := by
  rw [parseFields.eq_def] at h
  split at h
  · obtain rfl := Except.ok.inj h
    trivial
  · rename_i key definition rest
    split at h
    · cases h
    · rename_i name _
      split at h
      · cases h
      · rename_i data hentries
        have := Document.sizeOf_entries?_lt hentries
        split at h
        · cases h
        · rename_i field hfield
          obtain ⟨field, shape⟩ := field
          obtain ⟨rfl, hmark, hshape⟩ := named_of_parseField hfield
          obtain ⟨others, hrest, rfl⟩ := map_eq_ok_iff.mp h
          exact ⟨hmark, hshape, namedAll_of_parseFields hrest⟩
termination_by 2 * sizeOf definitions
decreasing_by
  all_goals grind

end

end Schemata.Shape
