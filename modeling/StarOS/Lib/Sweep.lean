import Mathlib.Data.List.Nodup
import Mathlib.Data.List.ProdSigma

/-!
# Sweeps over the parts of a table

A table is a function, and each index has a part of it.  `Local part step`: the step of an index changes the
part of the index only, and looks at nothing else.

* `Local.foldl_other`  a sweep over some indices leaves the other parts alone;
* `Local.foldl_part`   in the part of an index of the sweep it leaves what the step of the index alone does there;
* `foldl_pairs`, `foldl_triples`   nested loops as one sweep.
-/

namespace Lib

section
variable {ι α β : Type*}

structure Local (part : ι → α → Prop) (step : (α → β) → ι → α → β) : Prop where
  frame : ∀ f i a, ¬ part i a → step f i a = f a
  congr : ∀ f g i, (∀ a, part i a → f a = g a) → ∀ a, part i a → step f i a = step g i a

variable {part : ι → α → Prop} {step : (α → β) → ι → α → β} (h : Local part step) {l : List ι}
include h

theorem Local.foldl_other (f : α → β) {a : α} (ha : ∀ i ∈ l, ¬ part i a) : l.foldl step f a = f a := by
  induction l generalizing f with
  | nil => rfl
  | cons i l ih =>
    rw [List.foldl_cons, ih (step f i) fun j hj => ha j (List.mem_cons_of_mem _ hj),
      h.frame f i a (ha i List.mem_cons_self)]

theorem Local.foldl_part (hapart : ∀ i j a, part i a → part j a → i = j) (hl : l.Nodup) (f : α → β) {i : ι}
    (hi : i ∈ l) {a : α} (ha : part i a) : l.foldl step f a = step f i a := by
  induction l generalizing f with
  | nil => exact absurd hi List.not_mem_nil
  | cons j l ih =>
    obtain ⟨hj, hl⟩ := List.nodup_cons.mp hl
    rw [List.foldl_cons]
    rcases List.mem_cons.mp hi with rfl | hi
    · -- the index does not come again
      exact h.foldl_other _ fun k hk hka => hj (hapart i k a ha hka ▸ hk)
    · have hne : i ≠ j := fun e => hj (e ▸ hi)
      rw [ih hl _ hi]
      exact h.congr _ _ i (fun b hb => h.frame f j b fun hjb => hne (hapart i j b hb hjb)) a ha

end

section
variable {σ ι κ μ : Type*}

theorem foldl_pairs (step : σ → ι → κ → σ) (l : List ι) (l' : List κ) (s : σ) :
    (l ×ˢ l').foldl (fun s p => step s p.1 p.2) s = l.foldl (fun s i => l'.foldl (fun s j => step s i j) s) s := by
  show (l.flatMap fun i => l'.map (Prod.mk i)).foldl _ s = _
  simp only [List.foldl_flatMap, List.foldl_map]

theorem foldl_triples (step : σ → ι → κ → μ → σ) (l : List ι) (l' : List κ) (l'' : List μ) (s : σ) :
    (l ×ˢ (l' ×ˢ l'')).foldl (fun s p => step s p.1 p.2.1 p.2.2) s
      = l.foldl (fun s i => l'.foldl (fun s j => l''.foldl (fun s k => step s i j k) s) s) s := by
  rw [foldl_pairs fun s i (p : κ × μ) => step s i p.1 p.2]
  congr 1
  funext s i
  exact foldl_pairs (step · i) l' l'' s

end

end Lib
