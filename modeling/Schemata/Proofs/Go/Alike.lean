import Mathlib.Data.List.Forall2
import Schemata.Go.Declaration

/-!
# Records that are written alike

Little of a scalar shows in a source text: its kind, whether it can be null, and the text of its default. Forms with the
same object names are *alike* if their scalars agree on these (`Form.Alike`), and alike forms have the same types and
accessors. So do alike members, which have one name and one placement as well (`Member.Alike`).

A constructor shows more of a member: whether a default was given. That cannot be seen from the form, unless it is the
form of a scalar, whose default literal is there only if a default was given (`Member.Candid`).
-/

namespace Schemata.Go

/-! ### Forms -/

/-- Forms that differ at most in what does not show of their scalars. -/
inductive Form.Alike : Form → Form → Prop where
  /-- Scalars of one kind, with one default text, that both can be null or not. -/
  | scalar {s t : Scalar} (hkind : s.kind = t.kind) (hnull : s.isNull = t.isNull)
      (hdefault : s.default.map Literal.render = t.default.map Literal.render) : Alike (.scalar s) (.scalar t)
  /-- Sequences of alike forms. -/
  | list {a b : Form} (h : Alike a b) : Alike (.list a) (.list b)
  /-- The same object. -/
  | record (name : RecordName) : Alike (.record name) (.record name)

namespace Form.Alike

variable {a b : Form} (hab : a.Alike b) (suffix : String)

include hab

theorem containsObject_eq : a.containsObject = b.containsObject := by
  induction hab with
  | scalar => rfl
  | list _ ih => exact ih
  | record => rfl

theorem isNull_eq : a.isNull = b.isNull := by
  cases hab with
  | scalar _ hnull _ => exact hnull
  | list => rfl
  | record => rfl

theorem goType_eq : a.goType suffix = b.goType suffix := by
  induction hab with
  | scalar hkind _ _ => rw [goType, goType, hkind]
  | list _ ih => rw [goType, goType, ih]
  | record => rfl

theorem interfaceType_eq : a.interfaceType suffix = b.interfaceType suffix := by
  induction hab with
  | scalar hkind _ _ => rw [interfaceType, interfaceType, hkind]
  | list _ ih => rw [interfaceType, interfaceType, ih]
  | record => rfl

theorem wrapper?_eq : a.wrapper? = b.wrapper? := by
  cases hab with
  | scalar hkind hnull _ => rw [wrapper?, wrapper?, hkind, hnull]
  | list => rfl
  | record => rfl

theorem fieldType_eq : a.fieldType suffix = b.fieldType suffix := by
  rw [fieldType, fieldType, hab.wrapper?_eq, hab.goType_eq]

theorem fieldInterfaceType_eq : a.fieldInterfaceType suffix = b.fieldInterfaceType suffix := by
  rw [fieldInterfaceType, fieldInterfaceType, hab.wrapper?_eq, hab.fieldType_eq, hab.interfaceType_eq]

theorem defaultValue?_eq : a.defaultValue? suffix = b.defaultValue? suffix := by
  cases hab with
  | scalar _ _ hdefault => exact hdefault
  | list h => rw [defaultValue?, defaultValue?, (Alike.list h).goType_eq]
  | record => rfl

theorem getter_eq (stored shown : String) (depth : Nat) :
    a.getter suffix stored shown depth = b.getter suffix stored shown depth := by
  induction hab generalizing stored shown depth with
  | scalar => rfl
  | list h ih => rw [getter, getter, h.containsObject_eq, ih, (Alike.list h).interfaceType_eq]
  | record => rfl

theorem setter_eq (stored shown : String) (depth : Nat) :
    a.setter suffix stored shown depth = b.setter suffix stored shown depth := by
  induction hab generalizing stored shown depth with
  | scalar => rfl
  | list h ih => rw [setter, setter, h.containsObject_eq, ih, (Alike.list h).goType_eq]
  | record => rfl

end Form.Alike

/-! ### Members -/

/-- Members with one name, one placement and alike forms. -/
structure Member.Alike (m n : Member) : Prop where
  name_eq : m.name = n.name
  placement_eq : m.placement = n.placement
  form : m.form.Alike n.form

/-- A member whose scalar has a default literal was given a default. -/
def Member.Candid (m : Member) : Prop :=
  ∀ s, m.form = .scalar s → s.default.isSome = true → m.hasDefault = true

/-- Alike members that start with the same value: both have a default or neither does, and for scalars the default
literals show that. -/
structure Member.StartAlike (m n : Member) : Prop extends m.Alike n where
  candid_left : m.Candid
  candid_right : n.Candid
  hasDefault_eq : (∀ s, m.form ≠ .scalar s) → m.hasDefault = n.hasDefault

namespace Member.Alike

variable {m n : Member} (hmn : m.Alike n)

include hmn

theorem goName_eq : m.goName = n.goName := by
  rw [goName, goName, hmn.name_eq]

theorem annotation_eq : m.annotation = n.annotation := by
  unfold annotation
  rw [hmn.name_eq, hmn.placement_eq, hmn.form.isNull_eq]

theorem field_eq (suffix : String) : m.field suffix = n.field suffix := by
  rw [field, field, hmn.goName_eq, hmn.form.fieldType_eq, hmn.annotation_eq]

theorem getterHeader_eq (suffix : String) : m.getterHeader suffix = n.getterHeader suffix := by
  rw [getterHeader, getterHeader, hmn.name_eq, hmn.form.fieldInterfaceType_eq]

theorem setterHeader_eq (suffix : String) (named : Bool) :
    m.setterHeader suffix named = n.setterHeader suffix named := by
  rw [setterHeader, setterHeader, hmn.name_eq, hmn.form.fieldInterfaceType_eq]

theorem getter_eq (owner suffix : String) : m.getter owner suffix = n.getter owner suffix := by
  rw [getter, getter, hmn.getterHeader_eq, hmn.goName_eq, hmn.form.getter_eq]

theorem setter_eq (owner interfaceSuffix typeSuffix : String) :
    m.setter owner interfaceSuffix typeSuffix = n.setter owner interfaceSuffix typeSuffix := by
  rw [setter, setter, hmn.setterHeader_eq, hmn.goName_eq, hmn.name_eq, hmn.form.setter_eq]

end Member.Alike

/-- The default of a candid scalar does not depend on whether a default was given. -/
theorem Member.Candid.ite_defaultValue? {m : Member} (hm : m.Candid) {s : Scalar} (hs : m.form = .scalar s)
    (suffix : String) :
    (if m.hasDefault then m.form.defaultValue? suffix else none) = s.default.map Literal.render := by
  cases hdefault : s.default with
  | none => simp [hs, Form.defaultValue?, hdefault]
  | some l => simp [hs, Form.defaultValue?, hdefault, hm s hs (by simp [hdefault])]

theorem Member.StartAlike.constructorEntry?_eq {m n : Member} (hmn : m.StartAlike n) (suffix : String) :
    m.constructorEntry? suffix = n.constructorEntry? suffix := by
  have hvalue : (if m.hasDefault then m.form.defaultValue? suffix else none) =
      if n.hasDefault then n.form.defaultValue? suffix else none := by
    by_cases hscalar : ∃ s, m.form = .scalar s
    · obtain ⟨s, hs⟩ := hscalar
      have hform := hmn.form
      rw [hs] at hform
      obtain ⟨t, ht⟩ : ∃ t, n.form = .scalar t := by
        cases hform' : n.form with
        | scalar t => exact ⟨t, rfl⟩
        | list b => exact nomatch hform' ▸ hform
        | record r => exact nomatch hform' ▸ hform
      rw [hmn.candid_left.ite_defaultValue? hs, hmn.candid_right.ite_defaultValue? ht]
      rw [ht] at hform
      cases hform with
      | scalar _ _ hdefault => exact hdefault
    · rw [hmn.hasDefault_eq fun s hs => hscalar ⟨s, hs⟩, hmn.form.defaultValue?_eq]
  unfold constructorEntry? initialValue?
  rw [hvalue, hmn.form.wrapper?_eq, hmn.goName_eq]

/-! ### Records -/

/-- Records with one type name whose members are related one by one. -/
structure Record.Related (R : Member → Member → Prop) (r s : Record) : Prop where
  typeName_eq : r.typeName = s.typeName
  members : List.Forall₂ R r.members s.members

namespace Record.Related

variable {R : Member → Member → Prop} {r s : Record}

theorem map_eq {β : Type} (hrs : r.Related R s) {f : Member → β} (hf : ∀ m n, R m n → f m = f n) :
    r.members.map f = s.members.map f := by
  obtain ⟨-, hmembers⟩ := hrs
  generalize r.members = ms, s.members = ns at hmembers ⊢
  induction hmembers with
  | nil => rfl
  | cons hmn _ ih => rw [List.map_cons, List.map_cons, hf _ _ hmn, ih]

theorem name_eq (hrs : r.Related R s) : r.name = s.name := by
  obtain ⟨htypeName, hmembers⟩ := hrs
  rw [name, name, htypeName]
  generalize r.members = ms, s.members = ns at hmembers ⊢
  cases hmembers with
  | nil => rfl
  | cons => rfl

section Alike

variable (hrs : r.Related Member.Alike s)

include hrs

theorem struct_eq (suffix : String) : r.struct suffix = s.struct suffix := by
  rw [struct, struct, hrs.name_eq, hrs.map_eq fun m n hmn => hmn.field_eq suffix]

theorem interface_eq (suffix : String) : r.interface suffix = s.interface suffix := by
  rw [interface, interface, hrs.name_eq, hrs.map_eq fun m n hmn => ?_]
  rw [hmn.getterHeader_eq, hmn.setterHeader_eq]

theorem implementation_eq (interfaceSuffix typeSuffix : String) :
    r.implementation interfaceSuffix typeSuffix = s.implementation interfaceSuffix typeSuffix := by
  have hmethods : r.members.map (r.methods interfaceSuffix typeSuffix) =
      s.members.map (s.methods interfaceSuffix typeSuffix) := by
    have howner : ∀ m, r.methods interfaceSuffix typeSuffix m = s.methods interfaceSuffix typeSuffix m := by
      intro m
      rw [methods, methods, receiver, receiver, hrs.typeName_eq, hrs.name_eq]
    rw [List.map_congr_left fun m _ => howner m]
    refine hrs.map_eq fun m n hmn => ?_
    rw [methods, methods, hmn.getter_eq, hmn.setter_eq]
  rw [implementation, implementation, List.flatMap_def, List.flatMap_def, hmethods]

end Alike

theorem constructor_eq (hrs : r.Related Member.StartAlike s) (suffix : String) :
    r.constructor suffix = s.constructor suffix := by
  have hentries : r.members.filterMap (fun m => m.constructorEntry? suffix) =
      s.members.filterMap fun m => m.constructorEntry? suffix := by
    have hmap := congrArg (List.filterMap id) (hrs.map_eq fun m n hmn => hmn.constructorEntry?_eq suffix)
    rw [List.filterMap_map, List.filterMap_map] at hmap
    exact hmap
  unfold constructor
  rw [hrs.name_eq, hentries]

end Record.Related

/-! ### Other type names -/

/-- A form with another name for the object in it. -/
def Form.renamed (typeName : String) : Form → Form
  | .scalar s => .scalar s
  | .list element => .list (element.renamed typeName)
  | .record name => .record { name with typeName }

/-- A member with another name for the object in it. -/
def Member.renamed (typeName : String) (m : Member) : Member :=
  { m with form := m.form.renamed typeName }

/-- A record with other type names: its own is at the empty path, and those of the objects in its members are at the
names of the members. -/
def Record.renamed (typeNames : List String → String) (r : Record) : Record where
  typeName := typeNames []
  members := r.members.map fun m => m.renamed (typeNames [m.name])

theorem Member.Candid.renamed {m : Member} (hm : m.Candid) (typeName : String) : (m.renamed typeName).Candid := by
  intro s hs
  refine hm s ?_
  rw [Member.renamed] at hs
  cases hform : m.form with
  | scalar t => rwa [hform] at hs
  | list element => exact nomatch hform ▸ hs
  | record name => exact nomatch hform ▸ hs

end Schemata.Go
