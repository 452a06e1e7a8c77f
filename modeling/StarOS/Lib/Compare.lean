import Mathlib.Data.List.Lex
import Mathlib.Order.Lattice

/-!
# Three-way comparisons of lists

`compareBy f` compares two lists where they first differ, there by the key `f`; a list precedes the longer ones
that begin with it.

* `compareBy_eq_zero`, `compareBy_neg`, `compareBy_pos`   it decides the lexicographic order of the keys;
* `compareBy_antisymm`, `compareBy_trans`   so it is antisymmetric and transitive;
* `FirstDiffer P a b`  `a` and `b` first differ in two elements that satisfy `P`;
* `compareBy_eq_iff`   two keys compare alike exactly if they do so where the lists first differ.
-/

namespace Lib

section
variable {α β : Type*} [DecidableEq α] [LinearOrder β] (f : α → β)

def compareBy : List α → List α → Int
  | [], [] => 0
  | [], _ :: _ => -1
  | _ :: _, [] => 1
  | x :: as, y :: bs => if x = y then compareBy as bs else if f x < f y then -1 else 1

theorem compareBy_self (x : α) (as bs : List α) : compareBy f (x :: as) (x :: bs) = compareBy f as bs :=
  if_pos rfl

theorem compareBy_of_ne {x y : α} (h : x ≠ y) (as bs : List α) :
    compareBy f (x :: as) (y :: bs) = if f x < f y then -1 else 1 :=
  if_neg h

theorem compareBy_range (a b : List α) : compareBy f a b = -1 ∨ compareBy f a b = 0 ∨ compareBy f a b = 1 := by
  induction a generalizing b with
  | nil =>
    cases b with
    | nil => exact .inr (.inl rfl)
    | cons y bs => exact .inl rfl
  | cons x as ih =>
    cases b with
    | nil => exact .inr (.inr rfl)
    | cons y bs =>
      by_cases h : x = y
      · subst h
        rw [compareBy_self]
        exact ih bs
      · rw [compareBy_of_ne f h]
        by_cases hlt : f x < f y
        · exact .inl (if_pos hlt)
        · exact .inr (.inr (if_neg hlt))

theorem compareBy_eq_zero {a b : List α} : compareBy f a b = 0 ↔ a = b := by
  induction a generalizing b with
  | nil =>
    cases b with
    | nil => exact iff_of_true rfl rfl
    | cons y bs => exact iff_of_false (by simp [compareBy]) (List.cons_ne_nil y bs).symm
  | cons x as ih =>
    cases b with
    | nil => exact iff_of_false (by simp [compareBy]) (List.cons_ne_nil x as)
    | cons y bs =>
      by_cases h : x = y
      · subst h
        rw [compareBy_self, ih, List.cons_inj_right]
      · have hne : x :: as ≠ y :: bs := fun e => h (List.cons.inj e).1
        rw [compareBy_of_ne f h]
        refine iff_of_false ?_ hne
        split <;> decide

section
variable {f} (hf : Function.Injective f)
include hf

theorem compareBy_neg {a b : List α} : compareBy f a b < 0 ↔ a.map f < b.map f := by
  induction a generalizing b with
  | nil =>
    cases b with
    | nil => exact iff_of_false (by simp [compareBy]) (List.not_lt_nil _)
    | cons y bs => exact iff_of_true (by simp [compareBy]) (List.nil_lt_cons _ _)
  | cons x as ih =>
    cases b with
    | nil => exact iff_of_false (by simp [compareBy]) (List.not_lt_nil _)
    | cons y bs =>
      rw [List.map_cons, List.map_cons, List.cons_lt_cons_iff]
      by_cases h : x = y
      · subst h
        rw [compareBy_self, ih]
        simp only [lt_irrefl, false_or, true_and]
      · have hne : f x ≠ f y := fun e => h (hf e)
        rw [compareBy_of_ne f h]
        by_cases hlt : f x < f y
        · exact iff_of_true (by simp [hlt]) (.inl hlt)
        · exact iff_of_false (by simp [hlt]) (by simp [hlt, hne])

theorem compareBy_antisymm (a b : List α) : compareBy f b a = -compareBy f a b := by
  induction a generalizing b with
  | nil => cases b <;> rfl
  | cons x as ih =>
    cases b with
    | nil => rfl
    | cons y bs =>
      by_cases h : x = y
      · subst h
        rw [compareBy_self, compareBy_self, ih]
      · rw [compareBy_of_ne f h, compareBy_of_ne f (Ne.symm h)]
        rcases lt_or_gt_of_ne fun e => h (hf e) with hlt | hlt
        · rw [if_pos hlt, if_neg hlt.not_gt]
          rfl
        · rw [if_pos hlt, if_neg hlt.not_gt]

theorem compareBy_pos {a b : List α} : 0 < compareBy f a b ↔ b.map f < a.map f := by
  rw [← compareBy_neg hf, compareBy_antisymm hf]
  omega

theorem compareBy_trans {a b c : List α} (hab : compareBy f a b < 0) (hbc : compareBy f b c < 0) :
    compareBy f a c < 0 := by
  rw [compareBy_neg hf] at hab hbc ⊢
  exact lt_trans hab hbc

end

end

/-- the lists first differ in two elements that satisfy `P` -/
def FirstDiffer {α : Type*} (P : α → α → Prop) (a b : List α) : Prop :=
  ∃ cs x y as bs, a = cs ++ x :: as ∧ b = cs ++ y :: bs ∧ x ≠ y ∧ P x y

section
variable {α : Type*} {P : α → α → Prop}

theorem not_firstDiffer_nil_left (b : List α) : ¬ FirstDiffer P [] b := by
  rintro ⟨cs, x, y, as, bs, h, -⟩
  exact List.append_ne_nil_of_right_ne_nil cs (List.cons_ne_nil x as) h.symm

theorem not_firstDiffer_nil_right (a : List α) : ¬ FirstDiffer P a [] := by
  rintro ⟨cs, x, y, as, bs, -, h, -⟩
  exact List.append_ne_nil_of_right_ne_nil cs (List.cons_ne_nil y bs) h.symm

theorem firstDiffer_self {x : α} {as bs : List α} : FirstDiffer P (x :: as) (x :: bs) ↔ FirstDiffer P as bs := by
  constructor
  · rintro ⟨cs, u, v, as', bs', ha, hb, hne, hP⟩
    cases cs with
    | nil => exact absurd ((List.cons.inj ha).1.symm.trans (List.cons.inj hb).1) hne
    | cons c cs => exact ⟨cs, u, v, as', bs', (List.cons.inj ha).2, (List.cons.inj hb).2, hne, hP⟩
  · rintro ⟨cs, u, v, as', bs', rfl, rfl, hne, hP⟩
    exact ⟨x :: cs, u, v, as', bs', rfl, rfl, hne, hP⟩

theorem firstDiffer_of_ne {x y : α} (h : x ≠ y) {as bs : List α} : FirstDiffer P (x :: as) (y :: bs) ↔ P x y := by
  constructor
  · rintro ⟨cs, u, v, as', bs', ha, hb, hne, hP⟩
    cases cs with
    | nil =>
      obtain ⟨rfl, -⟩ := List.cons.inj ha
      obtain ⟨rfl, -⟩ := List.cons.inj hb
      exact hP
    | cons c cs => exact absurd ((List.cons.inj ha).1.trans (List.cons.inj hb).1.symm) h
  · intro hP
    exact ⟨[], x, y, as, bs, rfl, rfl, h, hP⟩

theorem compareBy_eq_iff {β γ : Type*} [DecidableEq α] [LinearOrder β] [LinearOrder γ] {f : α → β} {g : α → γ}
    {a b : List α} : compareBy f a b = compareBy g a b ↔ ¬ FirstDiffer (fun x y => ¬ (f x < f y ↔ g x < g y)) a b := by
  induction a generalizing b with
  | nil =>
    refine iff_of_true ?_ (not_firstDiffer_nil_left b)
    cases b <;> rfl
  | cons x as ih =>
    cases b with
    | nil => exact iff_of_true rfl (not_firstDiffer_nil_right _)
    | cons y bs =>
      by_cases h : x = y
      · subst h
        rw [compareBy_self, compareBy_self, firstDiffer_self]
        exact ih
      · rw [compareBy_of_ne f h, compareBy_of_ne g h, firstDiffer_of_ne h, not_not]
        by_cases hf : f x < f y <;> by_cases hg : g x < g y <;> simp [hf, hg]

end

/-- an order of the elements is an order of their keys -/
theorem map_lt_map_iff_lt {α β : Type*} [LT α] [LT β] {f : α → β} (hinj : Function.Injective f)
    (hlt : ∀ x y, x < y ↔ f x < f y) {a b : List α} : a.map f < b.map f ↔ a < b := by
  induction a generalizing b with
  | nil =>
    cases b with
    | nil => exact iff_of_false (List.not_lt_nil _) (List.not_lt_nil _)
    | cons y bs => exact iff_of_true (List.nil_lt_cons _ _) (List.nil_lt_cons _ _)
  | cons x as ih =>
    cases b with
    | nil => exact iff_of_false (List.not_lt_nil _) (List.not_lt_nil _)
    | cons y bs => rw [List.map_cons, List.map_cons, List.cons_lt_cons_iff, List.cons_lt_cons_iff, ih, hinj.eq_iff, hlt]

end Lib
