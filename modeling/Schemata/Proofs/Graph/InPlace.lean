import Schemata.Proofs.Graph.Merging

/-!
# Merging in place

`Graph.addProperties` gathers the properties of the object, with their copies, and updates the object once, at the end.
The object can as well be written in place: the properties are filed in it one by one, and each required copy is filed
as soon as it has been made. The graphs that this passes through are different ones, but it ends in the same graph
(`Graph.addInPlace_eq`): making a copy does not read the object (`Graph.requiredCopy?_setItem`). In particular a merge
that is refused leaves nothing behind, although it writes to the graph that it was given.
-/

namespace Schemata.Graph

variable {g h : Graph} {i : ItemId} {p : PropertyId} {o : ObjectNode}

/-! ### Updates of one item -/

theorem setItem_setItem (g : Graph) (i : ItemId) (x y : Item) : (g.setItem i x).setItem i y = g.setItem i y := by
  simp [setItem]

theorem setItem_item (g : Graph) (i : ItemId) : g.setItem i (g.item i) = g := by
  obtain ⟨items, properties⟩ := g
  rw [setItem, item, mk.injEq, Array.setIfInBounds]
  refine ⟨?_, rfl⟩
  split_ifs
  · simp
  · rfl

theorem object?_setItem_self (ho : g.object? i = some o) (o' : ObjectNode) :
    (g.setItem i (.object o')).object? i = some o' :=
  object?_eq_some_iff.mpr (item_setItem_self _ (lt_of_object? ho))

/-- Adding a leaf and updating an item that is there do not interfere. -/
theorem addLeaf_setItem (hi : i.index < g.items.size) (x : Item) (field : Field) (scalar : Scalar) :
    (g.setItem i x).addLeaf field scalar = ((g.addLeaf field scalar).1.setItem i x, (g.addLeaf field scalar).2) := by
  have hpush : (g.items.setIfInBounds i.index x).push (.scalar scalar) =
      (g.items.push (.scalar scalar)).setIfInBounds i.index x := by
    simp [Array.setIfInBounds, hi, Array.set_push, Nat.lt_succ_of_lt hi]
  simp only [addLeaf, addItem, addProperty, setItem, hpush, Array.size_setIfInBounds]

/-- Neither do copying a property and updating an object, even one that the property holds. -/
theorem requiredCopy?_setItem (ho : g.object? i = some o) (o' : ObjectNode) (p : PropertyId) :
    (g.setItem i (.object o')).requiredCopy? p =
      (g.requiredCopy? p).map fun copied => (copied.1.setItem i (.object o'), copied.2) := by
  have hi : i.index < g.items.size := lt_of_object? ho
  rw [requiredCopy?_eq, requiredCopy?_eq, held, property_setItem]
  by_cases hheld : (g.property p).item = i
  · rw [held, hheld, item_setItem_self _ hi, object?_eq_some_iff.mp ho]
    rfl
  · rw [item_setItem_of_ne _ hheld, held]
    cases g.item (g.property p).item with
    | array e => rfl
    | object o => rfl
    | scalar s =>
      simp only [addLeaf_setItem hi]
      split_ifs <;> rfl

theorem object?_of_requiredCopy? {copied : Graph × PropertyId} (ho : g.object? i = some o)
    (hcopy : g.requiredCopy? p = some copied) : copied.1.object? i = some o := by
  obtain ⟨s, -, -, rfl⟩ := requiredCopy?_eq_some_iff.mp hcopy
  exact (object?_congr ((g.grown_addLeaf _ _).item_eq i (lt_of_object? ho))).trans ho

/-! ### Writing the object -/

/-- File a property in an object. -/
def fileInPlace (i : ItemId) (g : Graph) (p : PropertyId) : Graph :=
  match g.object? i with
  | some o => g.setItem i (.object { o with properties := o.properties.insert g.propertyName p })
  | none => g

/-- File a required copy of a candidate in an object, if the object requires it and it can be null. -/
def requireInPlace (i : ItemId) (g : Graph) (p : PropertyId) : Graph :=
  match g.object? i with
  | some o =>
    if o.required.contains (g.propertyName p) then
      match g.requiredCopy? p with
      | some (g, copy) => g.fileInPlace i copy
      | none => g
    else
      g
  | none => g

/-- Add properties to an object in place, with the graph that is left in either case. -/
def addInPlace (g : Graph) (i : ItemId) (added : Registry PropertyId) (strict : Bool) :
    Graph × Except ItemError Unit :=
  match g.item i with
  | .object o =>
    if added.isEmpty then (g, .ok ())
    else if strict then
      match added.elements.findSome? (Registry.conflict? g.propertyName o.properties) with
      | some name => (g, .error (.duplicatePropertyName o.typeName name))
      | none => (added.elements.foldl (requireInPlace i) (added.elements.foldl (fileInPlace i) g), .ok ())
    else
      let merged := added.insertAll g.propertyName o.properties
      (merged.elements.foldl (requireInPlace i) (g.setItem i (.object { o with properties := merged })), .ok ())
  | item => (g, .error (.cannotAddProperties item.describe))

/-- Properties that are filed one after another are filed at once. -/
theorem foldl_fileInPlace (ps : List PropertyId) : ∀ {g : Graph} {o : ObjectNode}, g.object? i = some o →
    ps.foldl (fileInPlace i) g =
      g.setItem i (.object { o with properties := ps.foldl (Registry.insert g.propertyName) o.properties }) := by
  induction ps with
  | nil =>
    intro g o ho
    rw [List.foldl_nil, List.foldl_nil, ← object?_eq_some_iff.mp ho, setItem_item]
  | cons p ps ih =>
    intro g o ho
    rw [List.foldl_cons, List.foldl_cons, fileInPlace, ho]
    simp only []
    rw [ih (object?_setItem_self ho _), setItem_setItem]
    rfl

/-- The walk over the candidates writes what `requireAll` gathers. -/
theorem foldl_requireInPlace (ps : List PropertyId) : ∀ {g : Graph} (filed : Registry PropertyId),
    g.object? i = some o →
    ps.foldl (requireInPlace i) (g.setItem i (.object { o with properties := filed })) =
      (g.requireAll o.required filed ps).1.setItem i
        (.object { o with properties := (g.requireAll o.required filed ps).2 }) := by
  induction ps with
  | nil => exact fun _ _ => rfl
  | cons p ps ih =>
    intro g filed ho
    have hstep : requireInPlace i (g.setItem i (.object { o with properties := filed })) p =
        if o.required.contains (g.propertyName p) then
          match g.requiredCopy? p with
          | some (h, copy) => h.setItem i (.object { o with properties := filed.insert h.propertyName copy })
          | none => g.setItem i (.object { o with properties := filed })
        else g.setItem i (.object { o with properties := filed }) := by
      rw [requireInPlace, object?_setItem_self ho, requiredCopy?_setItem ho]
      cases hcopy : g.requiredCopy? p with
      | none => rfl
      | some copied =>
        simp only [Option.map_some, fileInPlace, object?_setItem_self (object?_of_requiredCopy? ho hcopy),
          setItem_setItem]
        rfl
    rw [List.foldl_cons, hstep, requireAll]
    split_ifs
    · cases hcopy : g.requiredCopy? p with
      | none => exact ih filed ho
      | some copied => exact ih _ (object?_of_requiredCopy? ho hcopy)
    · exact ih filed ho

/-- **Merging in place** ends in the graph that merging at once gives, and in the graph before it if it is refused. -/
theorem addInPlace_eq (g : Graph) (i : ItemId) (added : Registry PropertyId) (strict : Bool) :
    g.addInPlace i added strict =
      match g.addProperties i added strict with
      | .ok h => (h, .ok ())
      | .error e => (g, .error e) := by
  rw [addInPlace, addProperties]
  cases hitem : g.item i with
  | scalar s => rfl
  | array e => rfl
  | object o =>
    have ho : g.object? i = some o := object?_eq_some_iff.mpr hitem
    by_cases hempty : added.isEmpty = true
    · simp only [hempty, if_true]
    · simp only [hempty, Bool.false_eq_true, if_false]
      cases strict with
      | true =>
        rw [Registry.registerAll]
        cases added.elements.findSome? (Registry.conflict? g.propertyName o.properties) with
        | some name => rfl
        | none =>
          simp only [if_true]
          rw [foldl_fileInPlace _ ho, foldl_requireInPlace _ _ ho]
          rfl
      | false =>
        simp only [Bool.false_eq_true, if_false]
        rw [foldl_requireInPlace _ _ ho]
        rfl

end Schemata.Graph
