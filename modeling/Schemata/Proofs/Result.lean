import Mathlib.Data.List.Forall2
import Mathlib.Data.List.Perm.Basic

/-!
# Computations that can fail

A chain of computations gives a result exactly if each of them does. These are the rules by which the steps of a reader
or of a run are taken apart. Two computations that fare alike (`ExceptRel`) are taken apart side by side.
-/

namespace Schemata

variable {ε ε' α β γ δ : Type}

/-- A chain gives a result if both steps do. -/
theorem bind_eq_ok_iff {x : Except ε α} {f : α → Except ε β} {b : β} :
    x >>= f = .ok b ↔ ∃ a, x = .ok a ∧ f a = .ok b := by
  constructor
  · intro h
    cases x with
    | error e => cases h
    | ok a => exact ⟨a, rfl, h⟩
  · rintro ⟨a, rfl, h⟩
    exact h

/-- A chain fails with the error of the first step that fails. -/
theorem bind_eq_error_iff {x : Except ε α} {f : α → Except ε β} {e : ε} :
    x >>= f = .error e ↔ x = .error e ∨ ∃ a, x = .ok a ∧ f a = .error e := by
  constructor
  · intro h
    cases x with
    | error e' => exact .inl (congrArg _ (Except.error.inj h))
    | ok a => exact .inr ⟨a, rfl, h⟩
  · rintro (rfl | ⟨a, rfl, h⟩)
    · rfl
    · exact h

theorem map_eq_ok_iff {x : Except ε α} {f : α → β} {b : β} : x.map f = .ok b ↔ ∃ a, x = .ok a ∧ f a = b := by
  cases x with
  | error e => simp [Except.map]
  | ok a => simp [Except.map]

theorem map_eq_error_iff {x : Except ε α} {f : α → β} {e : ε} : x.map f = .error e ↔ x = .error e := by
  cases x with
  | error e' => simp [Except.map]
  | ok a => simp [Except.map]

theorem mapError_eq_ok_iff {x : Except ε α} {f : ε → ε'} {a : α} : x.mapError f = .ok a ↔ x = .ok a := by
  cases x with
  | error e => simp [Except.mapError]
  | ok a' => simp [Except.mapError]

theorem mapError_eq_error_iff {x : Except ε α} {f : ε → ε'} {e : ε'} :
    x.mapError f = .error e ↔ ∃ source, x = .error source ∧ f source = e := by
  cases x with
  | error e' => simp [Except.mapError]
  | ok a => simp [Except.mapError]

/-- Two steps that do the same with every member of a list do the same with the list. -/
theorem foldlM_congr {f f' : β → α → Except ε β} (xs : List α) : ∀ b, (∀ b, ∀ a ∈ xs, f b a = f' b a) →
    xs.foldlM f b = xs.foldlM f' b := by
  induction xs with
  | nil => exact fun _ _ => rfl
  | cons a xs ih =>
    intro b hsame
    rw [List.foldlM_cons, List.foldlM_cons, hsame b a (by simp)]
    exact congrArg _ (funext fun c => ih c fun b a ha => hsame b a (by simp [ha]))

/-- A computation that gives something gives what can be read off it. -/
theorem eq_ok_of_isSome_toOption [Inhabited α] {x : Except ε α} (hx : x.toOption.isSome) :
    x = .ok (x.toOption.getD default) := by
  cases x with
  | error e => exact nomatch hx
  | ok a => rfl

/-! ### Two computations -/

/-- Two computations both give something, and what they give is related, or both fail. -/
inductive ExceptRel (r : α → β → Prop) : Except ε α → Except ε' β → Prop where
  /-- Both give something. -/
  | ok {a : α} {b : β} (hab : r a b) : ExceptRel r (.ok a) (.ok b)
  /-- Both fail, for any reasons. -/
  | error (e : ε) (e' : ε') : ExceptRel r (.error e) (.error e')

namespace ExceptRel

variable {r : α → β → Prop} {x : Except ε α} {y : Except ε' β} (h : ExceptRel r x y)

include h

theorem exists_of_left {a : α} (hx : x = .ok a) : ∃ b, y = .ok b ∧ r a b := by
  cases h with
  | ok hab => exact ⟨_, rfl, Except.ok.inj hx ▸ hab⟩
  | error e e' => exact nomatch hx

theorem exists_of_right {b : β} (hy : y = .ok b) : ∃ a, x = .ok a ∧ r a b := by
  cases h with
  | ok hab => exact ⟨_, rfl, Except.ok.inj hy ▸ hab⟩
  | error e e' => exact nomatch hy

theorem imp {r' : α → β → Prop} (hr : ∀ a b, x = .ok a → y = .ok b → r a b → r' a b) : ExceptRel r' x y := by
  cases h with
  | ok hab => exact .ok (hr _ _ rfl rfl hab)
  | error e e' => exact .error e e'

theorem bind {r' : γ → δ → Prop} {f : α → Except ε γ} {f' : β → Except ε' δ}
    (hf : ∀ a b, x = .ok a → y = .ok b → r a b → ExceptRel r' (f a) (f' b)) : ExceptRel r' (x >>= f) (y >>= f') := by
  cases h with
  | ok hab => exact hf _ _ rfl rfl hab
  | error e e' => exact .error e e'

theorem map {r' : γ → δ → Prop} {f : α → γ} {f' : β → δ} (hf : ∀ a b, r a b → r' (f a) (f' b)) :
    ExceptRel r' (x.map f) (y.map f') := by
  cases h with
  | ok hab => exact .ok (hf _ _ hab)
  | error e e' => exact .error e e'

theorem mapError {η η' : Type} {f : ε → η} {f' : ε' → η'} : ExceptRel r (x.mapError f) (y.mapError f') := by
  cases h with
  | ok hab => exact .ok hab
  | error e e' => exact .error (f e) (f' e')

theorem symm : ExceptRel (fun b a => r a b) y x := by
  cases h with
  | ok hab => exact .ok hab
  | error e e' => exact .error e' e

theorem trans {ε'' : Type} {r' : β → γ → Prop} {r'' : α → γ → Prop} {z : Except ε'' γ} (h' : ExceptRel r' y z)
    (hr : ∀ a b c, r a b → r' b c → r'' a c) : ExceptRel r'' x z := by
  cases h with
  | ok hab =>
    cases h' with
    | ok hbc => exact .ok (hr _ _ _ hab hbc)
  | error e e' =>
    cases h' with
    | error e' e'' => exact .error e e''

end ExceptRel

/-- If each of two computations gives something whenever the other does, they fare alike. -/
theorem exceptRel_of_forall {r : α → β → Prop} {x : Except ε α} {y : Except ε' β}
    (hleft : ∀ a, x = .ok a → ∃ b, y = .ok b ∧ r a b) (hright : ∀ b, y = .ok b → ∃ a, x = .ok a) : ExceptRel r x y := by
  cases x with
  | ok a =>
    obtain ⟨b, rfl, hab⟩ := hleft a rfl
    exact .ok hab
  | error e =>
    cases y with
    | error e' => exact .error e e'
    | ok b =>
      obtain ⟨a, ha⟩ := hright b rfl
      exact nomatch ha

/-! ### Lists -/

theorem exists_mem_of_forall₂ {r : α → β → Prop} {xs : List α} {ys : List β} (h : List.Forall₂ r xs ys) {x : α}
    (hx : x ∈ xs) : ∃ y ∈ ys, r x y := by
  induction h with
  | nil => exact nomatch hx
  | cons hxy _ ih =>
    rcases List.mem_cons.mp hx with rfl | hx
    · exact ⟨_, List.mem_cons_self, hxy⟩
    · obtain ⟨y, hy, hxy⟩ := ih hx
      exact ⟨y, List.mem_cons_of_mem _ hy, hxy⟩

theorem forall₂_trans {r : α → β → Prop} {r' : β → γ → Prop} {r'' : α → γ → Prop}
    (hr : ∀ x y z, r x y → r' y z → r'' x z) {xs : List α} {ys : List β} (h : List.Forall₂ r xs ys) :
    ∀ {zs : List γ}, List.Forall₂ r' ys zs → List.Forall₂ r'' xs zs := by
  induction h with
  | nil => exact fun h' => List.forall₂_nil_left_iff.mp h' ▸ .nil
  | cons hxy _ ih =>
    intro zs h'
    cases h' with
    | cons hyz hrest => exact .cons (hr _ _ _ hxy hyz) (ih hrest)

theorem mapM_eq_ok_iff {f : α → Except ε β} {xs : List α} : ∀ {ys : List β},
    xs.mapM f = .ok ys ↔ List.Forall₂ (fun x y => f x = .ok y) xs ys := by
  induction xs with
  | nil =>
    intro ys
    rw [List.mapM_nil, List.forall₂_nil_left_iff]
    exact ⟨fun h => (Except.ok.inj h).symm, fun h => h ▸ rfl⟩
  | cons x xs ih =>
    intro ys
    rw [List.mapM_cons, bind_eq_ok_iff, List.forall₂_cons_left_iff]
    refine exists_congr fun y => ?_
    rw [bind_eq_ok_iff]
    constructor
    · rintro ⟨hy, zs, hzs, heq⟩
      exact ⟨zs, hy, ih.mp hzs, (Except.ok.inj heq).symm⟩
    · rintro ⟨zs, hy, hzs, rfl⟩
      exact ⟨hy, zs, ih.mpr hzs, rfl⟩

theorem exists_mapM_eq_ok_iff {f : α → Except ε β} {xs : List α} :
    (∃ ys, xs.mapM f = .ok ys) ↔ ∀ x ∈ xs, ∃ y, f x = .ok y := by
  induction xs with
  | nil => exact iff_of_true ⟨[], rfl⟩ fun _ hx => nomatch hx
  | cons x xs ih =>
    simp only [mapM_eq_ok_iff, List.forall₂_cons_left_iff, List.forall_mem_cons] at ih ⊢
    rw [← ih]
    constructor
    · rintro ⟨_, y, ys, hy, hys, rfl⟩
      exact ⟨⟨y, hy⟩, ys, hys⟩
    · rintro ⟨⟨y, hy⟩, ys, hys⟩
      exact ⟨y :: ys, y, ys, hy, hys, rfl⟩

/-- Computations fail with the error of the first one that fails. -/
theorem mapM_eq_error_iff {f : α → Except ε β} {xs : List α} {e : ε} :
    xs.mapM f = .error e ↔
      ∃ before x after, xs = before ++ x :: after ∧ (∀ y ∈ before, ∃ z, f y = .ok z) ∧ f x = .error e := by
  induction xs with
  | nil => exact iff_of_false nofun fun ⟨before, x, after, heq, _⟩ => by simp at heq
  | cons x xs ih =>
    rw [List.mapM_cons, bind_eq_error_iff]
    constructor
    · rintro (hx | ⟨y, hy, hrest⟩)
      · exact ⟨[], x, xs, rfl, List.forall_mem_nil _, hx⟩
      · rcases bind_eq_error_iff.mp hrest with hxs | ⟨_, -, hlast⟩
        · obtain ⟨before, z, after, rfl, hbefore, hz⟩ := ih.mp hxs
          exact ⟨x :: before, z, after, rfl, List.forall_mem_cons.mpr ⟨⟨y, hy⟩, hbefore⟩, hz⟩
        · exact nomatch hlast
    · rintro ⟨_ | ⟨x', before⟩, z, after, heq, hbefore, hz⟩
      · obtain ⟨rfl, -⟩ := List.cons.inj heq
        exact .inl hz
      · obtain ⟨rfl, rfl⟩ := List.cons.inj heq
        obtain ⟨⟨y, hy⟩, hbefore⟩ := List.forall_mem_cons.mp hbefore
        exact .inr ⟨y, hy, bind_eq_error_iff.mpr (.inl (ih.mpr ⟨before, z, after, rfl, hbefore, hz⟩))⟩

/-- Computations in another order give their results in another order. -/
theorem exceptRel_mapM_of_perm {f : α → Except ε β} {xs ys : List α} (hperm : xs.Perm ys) :
    ExceptRel List.Perm (xs.mapM f) (ys.mapM f) := by
  have hhalf : ∀ {xs ys : List α}, xs.Perm ys → ∀ zs, xs.mapM f = .ok zs → ∃ zs', ys.mapM f = .ok zs' ∧ zs.Perm zs' := by
    intro xs ys hperm zs hzs
    obtain ⟨zs', hzs', hperm'⟩ := List.perm_comp_forall₂ hperm.symm (mapM_eq_ok_iff.mp hzs)
    exact ⟨zs', mapM_eq_ok_iff.mpr hzs', hperm'.symm⟩
  refine exceptRel_of_forall (hhalf hperm) fun zs hzs => ?_
  obtain ⟨zs', hzs', -⟩ := hhalf hperm.symm zs hzs
  exact ⟨zs', hzs'⟩

theorem exceptRel_mapM {r : γ → δ → Prop} {f : α → Except ε γ} {f' : β → Except ε' δ} {xs : List α} {ys : List β}
    (h : List.Forall₂ (fun x y => ExceptRel r (f x) (f' y)) xs ys) :
    ExceptRel (List.Forall₂ r) (xs.mapM f) (ys.mapM f') := by
  induction h with
  | nil => exact .ok .nil
  | cons hxy _ ih =>
    rw [List.mapM_cons, List.mapM_cons]
    exact hxy.bind fun a b _ _ hab => ih.bind fun as bs _ _ habs => .ok (.cons hab habs)

end Schemata
