import Mathlib.Data.List.Range
import Schemata.Go.Accessor

/-!
# Loops of accessors

Every form is a number of sequences around a base. If the base is an object with properties, the concrete type and the
interface type of the form differ, and its accessors copy one into the other: as many loops as there are sequences, one
inside the other, each after a line that makes what it fills. Otherwise both types are one, and nothing is copied.

The accessors are written by recursion on the form. `accessors_follow_form` has their lines at once: which of them stand
at which depth, what they make, and of which type. Both recursions come to the same shape (`eq_loopLines`), so that is
proved once.
-/

namespace Schemata.Go

/-! ### Sequences of sequences -/

namespace Form

/-- A form under `k` sequences. -/
def nested (base : Form) : ℕ → Form
  | 0 => base
  | k + 1 => .list (base.nested k)

variable {form base : Form} {s t stored shown : String}

theorem containsObject_nested (base : Form) (k : ℕ) : (base.nested k).containsObject = base.containsObject := by
  induction k with
  | zero => rfl
  | succ k ih => exact ih

/-- Without an object that has properties there is one type. -/
theorem goType_eq_interfaceType (hform : form.containsObject = false) : form.goType t = form.interfaceType s := by
  induction form with
  | scalar => rfl
  | list element ih => rw [goType, interfaceType, ih hform]
  | record name =>
    have hempty : name.isEmpty = true := by simpa [containsObject] using hform
    rw [goType, interfaceType, RecordName.goType, RecordName.interfaceType, if_pos hempty, if_pos hempty]

/-- Without an object that has properties the stored value is returned as it is. -/
theorem getter_of_containsObject_eq_false (hform : form.containsObject = false) :
    form.getter s stored shown 1 = indent 1 ++ "return " ++ stored := by
  cases form with
  | list element =>
    have helement : element.containsObject = false := hform
    rw [getter, helement]
    rfl
  | scalar | record => rfl

/-- Without an object that has properties the shown value is stored as it is. -/
theorem setter_of_containsObject_eq_false (hform : form.containsObject = false) :
    form.setter t stored shown 1 = indent 1 ++ stored ++ " = " ++ shown := by
  cases form with
  | scalar => rfl
  | list element =>
    have helement : element.containsObject = false := hform
    rw [setter, helement]
    rfl
  | record name =>
    have hempty : name.isEmpty = true := by simpa [containsObject] using hform
    rw [setter, if_pos hempty]

end Form

/-! ### Types of elements -/

/-- A text without its first `n` pairs of brackets. -/
def withoutBrackets : ℕ → List Char → List Char
  | n + 1, '[' :: ']' :: rest => withoutBrackets n rest
  | _, text => text

/-- The type that is left of a type without its first `n` pairs of brackets. -/
def elementType (n : ℕ) (type : String) : String :=
  String.ofList (withoutBrackets n type.toList)

/-- Taking brackets away from a type leads to the elements. This goes for concrete and for interface types. -/
theorem elementType_nested {type : Form → String} (htype : ∀ element, type (.list element) = "[]" ++ type element)
    (base : Form) (n k : ℕ) : elementType n (type (base.nested (n + k))) = type (base.nested k) := by
  induction n with
  | zero =>
    rw [Nat.zero_add]
    exact String.ofList_toList
  | succ n ih =>
    rw [Nat.add_right_comm, Form.nested, htype, elementType, String.toList_append]
    exact ih

/-! ### Nested loops -/

/-- An expression indexed by the variables of the first `n` loops. -/
def indexedBy (expression : String) (n : ℕ) : String :=
  expression ++ String.join ((List.range n).map fun j => "[" ++ String.singleton (indexVariable (j + 1)) ++ "]")

theorem indexedBy_zero (expression : String) : indexedBy expression 0 = expression :=
  String.append_empty

theorem indexedBy_succ (expression : String) (n : ℕ) :
    indexedBy expression (n + 1) = indexed (indexedBy expression n) (n + 1) := by
  rw [indexedBy, List.range_succ, List.map_append, String.join_append, List.map_singleton, String.join_cons, indexed,
    indexedBy]
  simp only [String.append_assoc, String.join_nil, String.append_empty]

/-- The line that makes a sequence of a type, as long as another one, and the line that begins to pass over that one. -/
def openingLines (target type sequence : String) (depth : ℕ) : List String :=
  [indent depth ++ target ++ " make(" ++ type ++ ", len(" ++ sequence ++ "))",
   indent depth ++ "for " ++ String.singleton (indexVariable depth) ++ " := range " ++ sequence ++ " \x7b"]

/-- The lines of `k` loops, one inside the other, around a statement, if `start` loops are around them already. The loop
inside of `j` loops passes over `sequence j` and fills `target j`, which is made of the type `type j`. -/
def loopLines (target type sequence : ℕ → String) (statement : String) (start k : ℕ) : List String :=
  (List.range' start k).flatMap (fun j => openingLines (target j) (type j) (sequence j) (j + 1)) ++
    [indent (start + k + 1) ++ statement] ++
    (List.range' start k).reverse.map fun j => indent (j + 1) ++ "\x7d"

section Loops

variable {target type sequence : ℕ → String} {statement : String}

theorem loopLines_ne_nil (start k : ℕ) : loopLines target type sequence statement start k ≠ [] := by
  simp [loopLines]

/-- The first loop is around the others. -/
theorem loopLines_succ (start k : ℕ) :
    loopLines target type sequence statement start (k + 1) =
      openingLines (target start) (type start) (sequence start) (start + 1) ++
        loopLines target type sequence statement (start + 1) k ++ [indent (start + 1) ++ "\x7d"] := by
  have hdepth : start + (k + 1) + 1 = start + 1 + k + 1 := by omega
  simp [loopLines, List.range'_succ, hdepth]

theorem copyLoop_eq {target type sequence : String} {lines : List String} (hlines : lines ≠ []) (depth : ℕ) :
    copyLoop target type sequence ("\n".intercalate lines) depth =
      "\n".intercalate (openingLines target type sequence depth ++ lines ++ [indent depth ++ "\x7d"]) := by
  have hne : openingLines target type sequence depth ++ lines ≠ [] := by simp [openingLines]
  rw [String.intercalate_append_of_ne_nil hne (by simp),
    String.intercalate_append_of_ne_nil (by simp [openingLines]) hlines, openingLines, String.intercalate_cons_cons,
    String.intercalate_singleton, String.intercalate_singleton]
  -- Rewriting with the definition would make Lean compare the texts of its equation letter by letter.
  unfold copyLoop
  simp only [String.append_assoc]
  rfl

/-- Bodies that are loops around bodies, down to a statement, have the lines of all of these loops. -/
theorem eq_loopLines (body : ℕ → String) (k : ℕ) : ∀ {start : ℕ},
    (∀ j, start ≤ j → j < start + k →
      body j = copyLoop (target j) (type j) (sequence j) (body (j + 1)) (j + 1)) →
    body (start + k) = indent (start + k + 1) ++ statement →
    body start = "\n".intercalate (loopLines target type sequence statement start k) := by
  induction k with
  | zero =>
    intro start _ hlast
    simpa [loopLines] using hlast
  | succ k ih =>
    intro start hstep hlast
    have hdepth : start + (k + 1) = start + 1 + k := by omega
    rw [hdepth] at hstep hlast
    have hinner : body (start + 1) = "\n".intercalate (loopLines target type sequence statement (start + 1) k) :=
      ih (fun j hle hlt => hstep j (by omega) hlt) hlast
    rw [hstep start le_rfl (by omega), hinner, copyLoop_eq (loopLines_ne_nil _ _), loopLines_succ]

end Loops

/-! ### Accessors -/

/-- The type of the elements below `j` of `k` sequences. -/
theorem elementType_of_lt {type : Form → String} (htype : ∀ element, type (.list element) = "[]" ++ type element)
    (base : Form) {j k : ℕ} (hj : j < k) :
    elementType j (type (base.nested k)) = type (.list (base.nested (k - (j + 1)))) := by
  obtain ⟨n, rfl⟩ : ∃ n, k = j + (n + 1) := ⟨k - (j + 1), by omega⟩
  have hrest : j + (n + 1) - (j + 1) = n := by omega
  rw [elementType_nested htype, hrest, Form.nested]

theorem nested_of_lt (base : Form) {j k : ℕ} (hj : j < k) :
    base.nested (k - j) = .list (base.nested (k - (j + 1))) := by
  have hrest : k - j = k - (j + 1) + 1 := by omega
  rw [hrest, Form.nested]

section Accessors

variable {name : RecordName} (hname : name.isEmpty = false) (s t stored shown : String)

include hname

theorem containsObject_nested_record (k : ℕ) : ((Form.record name).nested k).containsObject = true := by
  rw [Form.containsObject_nested, Form.containsObject, hname]
  rfl

/-- The body of a setter of sequences of objects with properties: every element of what is shown is asserted to be of
the concrete type. -/
theorem setter_nested (k : ℕ) :
    ((Form.record name).nested k).setter t stored shown 1 =
      "\n".intercalate (loopLines (fun j => indexedBy stored j ++ " =")
        (fun j => elementType j (((Form.record name).nested k).goType t)) (indexedBy shown)
        (indexedBy stored k ++ ", _ = " ++ indexedBy shown k ++ ".(*" ++ name.name t ++ ")") 0 k) := by
  -- Inside of `j` loops stands the body for the elements below `j` sequences.
  let body (j : ℕ) : String :=
    ((Form.record name).nested (k - j)).setter t (indexedBy stored j) (indexedBy shown j) (j + 1)
  have hstart : body 0 = ((Form.record name).nested k).setter t stored shown 1 := by
    simp only [body, indexedBy_zero, Nat.sub_zero, Nat.zero_add]
  rw [← hstart]
  refine eq_loopLines body k (fun j _ hlt => ?_) ?_
  · rw [Nat.zero_add] at hlt
    simp only [body]
    rw [nested_of_lt _ hlt, Form.setter, if_pos (containsObject_nested_record hname _), indexedBy_succ, indexedBy_succ,
      elementType_of_lt (fun _ => rfl) _ hlt]
  · simp only [body, Nat.zero_add, Nat.sub_self, Form.nested, Form.setter, hname, Bool.false_eq_true, if_false,
      RecordName.goType, String.append_assoc]
    rfl

/-- The body of a getter of sequences of objects with properties: every element of what is stored is shown as it is. The
sequence that is shown is declared before the loops and returned behind them. -/
theorem getter_nested (k : ℕ) :
    ((Form.record name).nested (k + 1)).getter s stored shown 1 =
      "\n".intercalate (loopLines (fun j => indexedBy shown j ++ if j = 0 then " :=" else " =")
        (fun j => elementType j (((Form.record name).nested (k + 1)).interfaceType s)) (indexedBy stored)
        (indexedBy shown (k + 1) ++ " = " ++ indexedBy stored (k + 1)) 0 (k + 1) ++ [indent 1 ++ "return " ++ shown]) := by
  let body (j : ℕ) : String :=
    ((Form.record name).nested (k + 1 - j)).getter s (indexedBy stored j) (indexedBy shown j) (j + 1)
  -- The outermost loop is apart: only there the target is declared, and only behind it something is returned.
  have hinner : body 1 =
      "\n".intercalate (loopLines (fun j => indexedBy shown j ++ if j = 0 then " :=" else " =")
        (fun j => elementType j (((Form.record name).nested (k + 1)).interfaceType s)) (indexedBy stored)
        (indexedBy shown (k + 1) ++ " = " ++ indexedBy stored (k + 1)) 1 k) := by
    refine eq_loopLines body k (fun j hle hlt => ?_) ?_
    · have hdepth : 1 < j + 1 := by omega
      have hnot : ¬ j + 1 = 1 := by omega
      have hnotFirst : ¬ j = 0 := by omega
      simp only [body]
      rw [nested_of_lt _ (by omega : j < k + 1), Form.getter, indexedBy_succ, indexedBy_succ,
        elementType_of_lt (fun _ => rfl) _ (by omega : j < k + 1)]
      simp only [resultTarget, hdepth, hnot, hnotFirst, decide_false, Bool.false_and, Bool.false_eq_true, if_true, if_false,
        String.append_empty]
    · have hdepth : 1 < k + 1 + 1 := by omega
      simp only [body, Nat.add_comm 1 k, Nat.sub_self, Form.nested, Form.getter, resultTarget, hdepth, if_true,
        String.append_assoc]
      rfl
  have houter : ((Form.record name).nested (k + 1)).getter s stored shown 1 =
      copyLoop (shown ++ " :=") (((Form.record name).nested (k + 1)).interfaceType s) stored (body 1) 1 ++
        ("\n" ++ indent 1 ++ "return " ++ shown) := by
    have hcopies : (decide (1 = 1) && !((Form.record name).nested k).containsObject) = false := by
      rw [containsObject_nested_record hname]
      rfl
    rw [Form.nested, Form.getter, if_neg (Bool.eq_false_iff.mp hcopies)]
    simp only [body, indexedBy_succ, indexedBy_zero, Nat.add_sub_cancel]
    rfl
  have htype : ∀ type, elementType 0 type = type := fun type => String.ofList_toList
  rw [houter, hinner, copyLoop_eq (loopLines_ne_nil _ _),
    String.intercalate_append_of_ne_nil (loopLines_ne_nil 0 (k + 1)) (List.cons_ne_nil _ _), loopLines_succ,
    String.intercalate_singleton]
  simp only [indexedBy_zero, if_true, htype, String.append_assoc, Nat.zero_add]

end Accessors

/-- **Accessors follow their types.** For `k` sequences around a base that is a scalar or an object: if the base is no
object with properties, the concrete type is the interface type, and the value is returned and assigned as it is. If it is
one, and there are no sequences, the value is returned as it is, and asserted to be a pointer when it is set. And with
sequences, both accessors are `k` loops, one inside the other. Before the loop that `j` loops are around, the target,
indexed by the variables of those, is made of what is left of the interface type, or of the concrete type for a setter,
without its first `j` pairs of brackets. Inside of all loops one element, indexed by all variables, is copied, or asserted
to be a pointer. -/
theorem accessors_follow_form (base : Form) (hbase : ∀ element, base ≠ .list element) (k : ℕ)
    (s t stored shown : String) :
    ((∀ name, base = .record name → name.isEmpty = true) →
      (base.nested k).goType t = (base.nested k).interfaceType s ∧
        (base.nested k).getter s stored shown 1 = indent 1 ++ "return " ++ stored ∧
        (base.nested k).setter t stored shown 1 = indent 1 ++ stored ++ " = " ++ shown) ∧
    ∀ name : RecordName, base = .record name → name.isEmpty = false →
      (k = 0 →
        (base.nested k).getter s stored shown 1 = indent 1 ++ "return " ++ stored ∧
          (base.nested k).setter t stored shown 1 = indent 1 ++ stored ++ ", _ = " ++ shown ++ ".(*" ++ name.name t ++ ")") ∧
      (1 ≤ k →
        (base.nested k).getter s stored shown 1 =
            "\n".intercalate (loopLines (fun j => indexedBy shown j ++ if j = 0 then " :=" else " =")
              (fun j => elementType j ((base.nested k).interfaceType s)) (indexedBy stored)
              (indexedBy shown k ++ " = " ++ indexedBy stored k) 0 k ++ [indent 1 ++ "return " ++ shown]) ∧
          (base.nested k).setter t stored shown 1 =
            "\n".intercalate (loopLines (fun j => indexedBy stored j ++ " =")
              (fun j => elementType j ((base.nested k).goType t)) (indexedBy shown)
              (indexedBy stored k ++ ", _ = " ++ indexedBy shown k ++ ".(*" ++ name.name t ++ ")") 0 k)) := by
  refine ⟨fun hplain => ?_, ?_⟩
  · have hcontains : (base.nested k).containsObject = false := by
      rw [Form.containsObject_nested]
      cases base with
      | scalar => rfl
      | list element => exact absurd rfl (hbase element)
      | record name =>
        rw [Form.containsObject, hplain name rfl]
        rfl
    exact ⟨Form.goType_eq_interfaceType hcontains, Form.getter_of_containsObject_eq_false hcontains,
      Form.setter_of_containsObject_eq_false hcontains⟩
  · rintro name rfl hname
    refine ⟨?_, fun hk => ⟨?_, setter_nested hname t stored shown k⟩⟩
    · rintro rfl
      refine ⟨rfl, ?_⟩
      rw [Form.nested, Form.setter, hname, RecordName.goType, hname]
      simp only [Bool.false_eq_true, if_false, String.append_assoc]
      rfl
    · obtain ⟨n, rfl⟩ : ∃ n, k = n + 1 := ⟨k - 1, by omega⟩
      exact getter_nested hname s stored shown n

/-- The toys of a pet are kept in sequences of sequences: two loops. -/
theorem accessors_of_toys :
    (∀ element, Form.record ⟨"pet_toy", false⟩ ≠ .list element) ∧
      ((Form.record ⟨"pet_toy", false⟩).nested 2).getter "gen" "pet.Toys" "result" 1 =
        "\n".intercalate
          ["\tresult := make([][]IPetToyGen, len(pet.Toys))",
           "\tfor i := range pet.Toys \x7b",
           "\t\tresult[i] = make([]IPetToyGen, len(pet.Toys[i]))",
           "\t\tfor j := range pet.Toys[i] \x7b",
           "\t\t\tresult[i][j] = pet.Toys[i][j]",
           "\t\t\x7d",
           "\t\x7d",
           "\treturn result"] ∧
      ((Form.record ⟨"pet_toy", false⟩).nested 2).setter "" "pet.Toys" "toys" 1 =
        "\n".intercalate
          ["\tpet.Toys = make([][]*PetToy, len(toys))",
           "\tfor i := range toys \x7b",
           "\t\tpet.Toys[i] = make([]*PetToy, len(toys[i]))",
           "\t\tfor j := range toys[i] \x7b",
           "\t\t\tpet.Toys[i][j], _ = toys[i][j].(*PetToy)",
           "\t\t\x7d",
           "\t\x7d"] := by
  have hbase : ∀ element, Form.record ⟨"pet_toy", false⟩ ≠ .list element := fun _ => Form.noConfusion
  have haccessors := accessors_follow_form _ hbase 2 "gen" "" "pet.Toys"
  refine ⟨hbase, ?_, ?_⟩
  · exact (((haccessors "result").2 _ rfl rfl).2 (by decide)).1.trans (by decide +kernel)
  · exact (((haccessors "toys").2 _ rfl rfl).2 (by decide)).2.trans (by decide +kernel)

end Schemata.Go
