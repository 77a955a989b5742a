import Mathlib.Logic.Function.Basic
import Schemata.Proofs.ByteOrder
import Schemata.Proofs.Registry

/-!
# Histories of registries

Some registries are worked on, all empty at first: elements are filed in them and removed from them, one by one or a whole
registry at a time, strictly or not. Whatever the history, every registry stays filed (`Registry.filed_afterwards`). So it
is known by what it has under each name, and that is all that the next operation depends on: a strict union exists exactly
if no name clashes, and the order in which elements of different names are filed does not matter
(`Registry.laws_of_reached`).

A strict union is written into a registry. It is refused before anything has been written
(`Registry.run_registerInPlace`).
-/

namespace Schemata.Registry

variable {α : Type}

/-! ### Filing in any order -/

/-- Elements of pairwise different names are filed in any order. -/
theorem Filed.foldl_insert_perm {nameOf : α → String} {r : Registry α} {xs ys : List α} (hr : r.Filed nameOf)
    (hperm : xs.Perm ys) (hxs : (xs.map nameOf).Nodup) : xs.foldl (insert nameOf) r = ys.foldl (insert nameOf) r := by
  have hys : (ys.map nameOf).Nodup := (hperm.map nameOf).nodup_iff.mp hxs
  have hfind : ∀ name, (xs.find? fun x => nameOf x = name) = ys.find? fun x => nameOf x = name := by
    intro name
    ext x
    constructor <;> intro hfound
    · obtain rfl : nameOf x = name := by simpa using List.find?_some hfound
      exact find?_name_eq hys (hperm.mem_iff.mp (List.mem_of_find?_eq_some hfound))
    · obtain rfl : nameOf x = name := by simpa using List.find?_some hfound
      exact find?_name_eq hxs (hperm.mem_iff.mpr (List.mem_of_find?_eq_some hfound))
  have hleft : (xs.foldl (insert nameOf) r).Filed nameOf := filed_foldl_insert xs hr
  have hright : (ys.foldl (insert nameOf) r).Filed nameOf := filed_foldl_insert ys hr
  refine hleft.eq_of_mem_iff hright fun x => ?_
  have hget : (xs.foldl (insert nameOf) r).get? (nameOf x) = (ys.foldl (insert nameOf) r).get? (nameOf x) := by
    rw [get?_foldl_insert xs _ hxs, get?_foldl_insert ys _ hys, hfind]
  constructor
  · exact fun hx => mem_elements_of_get? (hget ▸ hleft.get?_of_mem hx)
  · exact fun hx => mem_elements_of_get? (hget ▸ hright.get?_of_mem hx)

variable [DecidableEq α] (nameOf : α → String)

/-! ### Strict unions in place -/

/-- A strict union exists exactly if no name has different elements in the two registries. -/
theorem Filed.exists_registerAll_eq_ok_iff {nameOf : α → String} {r other : Registry α} (hother : other.Filed nameOf) :
    (∃ union, r.registerAll nameOf other = .ok union) ↔
      ∀ name x y, r.get? name = some x → other.get? name = some y → x = y := by
  have hclashes : (∃ union, r.registerAll nameOf other = .ok union) ↔ r.clashes other = ∅ := by
    simp only [hother.registerAll_eq_ok_iff_clashes, exists_and_left, exists_eq, and_true]
  rw [hclashes, Set.eq_empty_iff_forall_notMem]
  constructor
  · intro hnone name x y hx hy
    by_contra hne
    exact hnone name ⟨y, x, hy, hx, hne⟩
  · rintro hagree name ⟨y, x, hy, hx, hne⟩
    exact hne (hagree name x y hx hy)

/-- A strict union has the entries of both registries. -/
theorem mem_entries_of_registerAll_eq_ok {nameOf : α → String} {r other union : Registry α} (hr : r.Filed nameOf)
    (hother : other.Filed nameOf) (h : r.registerAll nameOf other = .ok union) {entry : String × α} :
    entry ∈ union.entries ↔ entry ∈ r.entries ∨ entry ∈ other.entries := by
  have hunion : union.Filed nameOf := by
    rw [(registerAll_eq_ok_iff.mp h).2]
    exact hr.insertAll other
  rw [hunion.mem_entries_iff, hr.mem_entries_iff, hother.mem_entries_iff,
    mem_elements_of_registerAll_eq_ok hr hother h, or_and_right]

/-- File all elements of another registry in the registry that is worked on, or none if one of them meets a different
element: all are tried before the first one is filed. -/
def registerInPlace (other : Registry α) : ExceptT DuplicateName (StateM (Registry α)) Unit := do
  let r ← get
  match other.elements.findSome? (conflict? nameOf r) with
  | some name => throw ⟨name⟩
  | none => other.elements.forM fun x => modify fun r => r.insert nameOf x

omit [DecidableEq α] in
theorem run_forM_insert (xs : List α) : ∀ r : Registry α,
    ((xs.forM fun x => modify fun r => r.insert nameOf x : ExceptT DuplicateName (StateM (Registry α)) Unit)).run.run r =
      (.ok (), xs.foldl (insert nameOf) r) := by
  induction xs with
  | nil => exact fun _ => rfl
  | cons x xs ih => exact fun r => ih (r.insert nameOf x)

/-- **Strict unions in place** leave the union, and the registry as it was if they are refused. -/
theorem run_registerInPlace (r other : Registry α) :
    (registerInPlace nameOf other).run.run r =
      match r.registerAll nameOf other with
      | .ok union => (.ok (), union)
      | .error e => (.error e, r) := by
  have hstart : (registerInPlace nameOf other).run.run r =
      ((match other.elements.findSome? (conflict? nameOf r) with
        | some name => throw ⟨name⟩
        | none => other.elements.forM fun x => modify fun r => r.insert nameOf x :
          ExceptT DuplicateName (StateM (Registry α)) Unit)).run.run r := rfl
  rw [hstart, registerAll]
  cases other.elements.findSome? (conflict? nameOf r) with
  | some name => rfl
  | none => exact run_forM_insert nameOf other.elements r

/-! ### Histories -/

/-- An operation on one of several registries. Other registries are given by their numbers. -/
inductive Operation (α : Type) where
  /-- File an element. -/
  | insert (x : α)
  /-- File all elements of another registry. -/
  | insertAll (source : ℕ)
  /-- File an element unless a different one has its name. -/
  | register (x : α)
  /-- File all elements of another registry, or none. -/
  | registerAll (source : ℕ)
  /-- Remove what has the name of an element. -/
  | remove (x : α)
  /-- Remove what has a name. -/
  | removeName (name : String)
  /-- Start anew with a list of elements. -/
  | collect (xs : List α)

/-- What an operation answers, and what it leaves of the registry that it is done on. -/
def Operation.run (registries : ℕ → Registry α) (r : Registry α) : Operation α → Except DuplicateName Unit × Registry α
  | .insert x => (.ok (), r.insert nameOf x)
  | .insertAll source => (.ok (), r.insertAll nameOf (registries source))
  | .register x =>
    match r.register nameOf x with
    | .ok filed => (.ok (), filed)
    | .error e => (.error e, r)
  | .registerAll source => (registerInPlace nameOf (registries source)).run.run r
  | .remove x => (.ok (), r.erase (nameOf x))
  | .removeName name => (.ok (), r.erase name)
  | .collect xs => (.ok (), ofList nameOf xs)

/-- Do an operation on the registry with a number. -/
def step (registries : ℕ → Registry α) (operation : ℕ × Operation α) : ℕ → Registry α :=
  Function.update registries operation.1 (operation.2.run nameOf registries (registries operation.1)).2

/-- The registries after a history. Before it they are empty. -/
def afterwards (history : List (ℕ × Operation α)) : ℕ → Registry α :=
  history.foldl (step nameOf) fun _ => ∅

/-- The registries that histories lead to. -/
def Reached (r : Registry α) : Prop :=
  ∃ history i, afterwards nameOf history i = r

variable {nameOf}

/-- An operation leaves a registry filed, whatever the other registries are. -/
theorem Filed.run {r : Registry α} (hr : r.Filed nameOf) (registries : ℕ → Registry α) (operation : Operation α) :
    (operation.run nameOf registries r).2.Filed nameOf := by
  cases operation with
  | insert x => exact hr.put rfl
  | insertAll source => exact hr.insertAll (registries source)
  | register x =>
    rw [Operation.run]
    cases hregister : r.register nameOf x with
    | error e => exact hr
    | ok filed =>
      obtain ⟨-, rfl⟩ := register_eq_ok_iff.mp hregister
      exact hr.put rfl
  | registerAll source =>
    rw [Operation.run, run_registerInPlace]
    cases hregister : r.registerAll nameOf (registries source) with
    | error e => exact hr
    | ok union =>
      obtain ⟨-, rfl⟩ := registerAll_eq_ok_iff.mp hregister
      exact hr.insertAll (registries source)
  | remove x => exact hr.erase (nameOf x)
  | removeName name => exact hr.erase name
  | collect xs => exact filed_ofList nameOf xs

theorem filed_step {registries : ℕ → Registry α} (hregistries : ∀ i, (registries i).Filed nameOf)
    (operation : ℕ × Operation α) (i : ℕ) : (step nameOf registries operation i).Filed nameOf := by
  rw [step]
  by_cases hi : i = operation.1
  · rw [hi, Function.update_self]
    exact (hregistries _).run registries operation.2
  · rw [Function.update_of_ne hi]
    exact hregistries i

/-- After any history every registry is filed. -/
theorem filed_afterwards (history : List (ℕ × Operation α)) (i : ℕ) : (afterwards nameOf history i).Filed nameOf := by
  have hfold : ∀ registries : ℕ → Registry α, (∀ i, (registries i).Filed nameOf) →
      ∀ i, (history.foldl (step nameOf) registries i).Filed nameOf := by
    induction history with
    | nil => exact fun _ hregistries => hregistries
    | cons operation history ih => exact fun registries hregistries => ih _ (filed_step hregistries operation)
  exact hfold _ (fun _ => filed_empty nameOf) i

theorem Reached.filed {r : Registry α} (hr : Reached nameOf r) : r.Filed nameOf := by
  obtain ⟨history, i, rfl⟩ := hr
  exact filed_afterwards history i

/-- **Registries with a history.** Elements whose names do not change are filed in registries and removed from them, in
any way. Then the names in each registry ascend by their bytes, and every element stands under its own name.

Of any two such registries, a strict union exists if and only if no name has different elements in them. It has exactly
the entries of both. If it is refused, the registry stays as it was, and the name that is reported is the least of those
that clash.

Filing a list of elements of pairwise different names leaves the same registry for each order of the list. -/
theorem laws_of_reached {r other : Registry α} (hr : Reached nameOf r) (hother : Reached nameOf other) :
    (r.keys.Pairwise (fun name name' => Text.bytes name < Text.bytes name') ∧
      ∀ name x, (name, x) ∈ r.entries → nameOf x = name) ∧
    ((∃ union, r.registerAll nameOf other = .ok union) ↔
      ∀ name x y, r.get? name = some x → other.get? name = some y → x = y) ∧
    (∀ union, r.registerAll nameOf other = .ok union →
      (registerInPlace nameOf other).run.run r = (.ok (), union) ∧ union.Filed nameOf ∧
        ∀ entry, entry ∈ union.entries ↔ entry ∈ r.entries ∨ entry ∈ other.entries) ∧
    (∀ e, r.registerAll nameOf other = .error e →
      (registerInPlace nameOf other).run.run r = (.error e, r) ∧ e.name ∈ r.clashes other ∧
        ∀ name ∈ r.clashes other, ¬ Text.bytes name < Text.bytes e.name) ∧
    ∀ xs ys : List α, xs.Perm ys → (xs.map nameOf).Nodup →
      xs.foldl (insert nameOf) r = ys.foldl (insert nameOf) r := by
  have hfiled : r.Filed nameOf := hr.filed
  have hfiled' : other.Filed nameOf := hother.filed
  refine ⟨⟨hfiled.ascending.imp Text.bytes_lt_bytes_iff.mpr, fun name x hx => hfiled.name_eq _ hx⟩,
    hfiled'.exists_registerAll_eq_ok_iff, fun union hunion => ⟨?_, ?_, fun entry => ?_⟩, fun e he => ⟨?_, ?_, ?_⟩,
    fun xs ys hperm hxs => hfiled.foldl_insert_perm hperm hxs⟩
  · rw [run_registerInPlace, hunion]
  · rw [(registerAll_eq_ok_iff.mp hunion).2]
    exact hfiled.insertAll other
  · exact mem_entries_of_registerAll_eq_ok hfiled hfiled' hunion
  · rw [run_registerInPlace, he]
  · exact (hfiled'.registerAll_eq_error_iff.mp he).1
  · intro name hname hlt
    have hle : e.name ≤ name := (hfiled'.registerAll_eq_error_iff.mp he).2 hname
    exact not_le.mpr (Text.bytes_lt_bytes_iff.mp hlt) hle

/-- Elements with numbers: a note and a tag in one registry, a city and another note in the next one. A strict union of the
two is refused, also when it is tried within the history, and one without the other note succeeds. -/
def notes : List (ℕ × Operation (String × ℕ)) :=
  [(0, .collect [("tag", 0), ("note", 1)]), (1, .insert ("note", 2)), (1, .register ("city", 3)), (1, .registerAll 0),
   (2, .insertAll 1), (2, .remove ("note", 1)), (2, .registerAll 0)]

/-- The other note clashes with the first one, and is reported. The city does not, and it is filed with the note and the tag
in any order. -/
theorem laws_of_notes :
    Reached Prod.fst (afterwards Prod.fst notes 0) ∧ Reached Prod.fst (afterwards Prod.fst notes 1) ∧
      (registerInPlace Prod.fst (afterwards Prod.fst notes 1)).run.run (afterwards Prod.fst notes 0) =
        (.error ⟨"note"⟩, afterwards Prod.fst notes 0) ∧
      (registerInPlace Prod.fst (afterwards Prod.fst notes 0)).run.run (afterwards Prod.fst notes 2) =
        (.ok (), ⟨[("city", ("city", 3)), ("note", ("note", 1)), ("tag", ("tag", 0))]⟩) ∧
      [("tag", 0), ("city", 3)].foldl (insert Prod.fst) (afterwards Prod.fst notes 1) =
        [("city", 3), ("tag", 0)].foldl (insert Prod.fst) (afterwards Prod.fst notes 1) := by
  have hreached : ∀ i, Reached Prod.fst (afterwards Prod.fst notes i) := fun i => ⟨notes, i, rfl⟩
  obtain ⟨-, -, -, hrefused, -⟩ := laws_of_reached (hreached 0) (hreached 1)
  obtain ⟨-, -, hunion, -, -⟩ := laws_of_reached (hreached 2) (hreached 0)
  obtain ⟨-, -, -, -, horder⟩ := laws_of_reached (hreached 1) (hreached 0)
  refine ⟨hreached 0, hreached 1, (hrefused ⟨"note"⟩ (by decide +kernel)).1, (hunion _ (by decide +kernel)).1, ?_⟩
  exact horder _ _ (.swap _ _ []) (by decide)

end Schemata.Registry
