import Mathlib.Logic.Function.Basic

/-!
# Loops

`loop body n s` makes at most `n` rounds: a round goes on with another state, or ends the loop with a result.

* `Loops body s r`     the loop from `s` ends with `r`;
* `Loops.stop`, `Loops.round`   the two rules;
* `loop_mono`, `Loops.unique`   the result does not depend on the number of rounds allowed.
-/

namespace Lib

section
variable {σ ρ : Type*} (body : σ → σ ⊕ ρ)

def loop : Nat → σ → Option ρ
  | 0, _ => none
  | n + 1, s =>
    match body s with
    | .inl s => loop n s
    | .inr r => some r

def Loops (s : σ) (r : ρ) : Prop := ∃ n, loop body n s = some r

end

section
variable {σ ρ : Type*} {body : σ → σ ⊕ ρ} {s s' : σ} {r r' : ρ}

theorem loop_inl (h : body s = .inl s') (n : Nat) : loop body (n + 1) s = loop body n s' := by
  rw [loop, h]

theorem loop_inr (h : body s = .inr r) (n : Nat) : loop body (n + 1) s = some r := by
  rw [loop, h]

theorem Loops.stop (h : body s = .inr r) : Loops body s r := ⟨1, loop_inr h 0⟩

theorem Loops.round (h : body s = .inl s') (hl : Loops body s' r) : Loops body s r := by
  obtain ⟨n, hn⟩ := hl
  exact ⟨n + 1, (loop_inl h n).trans hn⟩

theorem loop_mono {m n : Nat} (h : loop body m s = some r) (hmn : m ≤ n) : loop body n s = some r := by
  induction m generalizing n s with
  | zero => cases h
  | succ m ih =>
    obtain ⟨n, rfl⟩ := Nat.exists_eq_add_one.mpr (Nat.zero_lt_of_lt hmn)
    cases hb : body s with
    | inl s' =>
      rw [loop_inl hb] at h ⊢
      exact ih h (Nat.le_of_succ_le_succ hmn)
    | inr r' =>
      rw [loop_inr hb] at h ⊢
      exact h

theorem Loops.unique (h : Loops body s r) (h' : Loops body s r') : r = r' := by
  obtain ⟨m, hm⟩ := h
  obtain ⟨n, hn⟩ := h'
  have e := (loop_mono hm (Nat.le_max_left m n)).symm.trans (loop_mono hn (Nat.le_max_right m n))
  exact Option.some.inj e

/-- what is made of the result does not either -/
theorem loop_map_unique {τ : Type*} {f : ρ → τ} {m n : Nat} {x y : τ} (h : (loop body m s).map f = some x)
    (h' : (loop body n s).map f = some y) : x = y := by
  obtain ⟨a, ha, rfl⟩ := Option.map_eq_some_iff.mp h
  obtain ⟨b, hb, rfl⟩ := Option.map_eq_some_iff.mp h'
  rw [Loops.unique ⟨m, ha⟩ ⟨n, hb⟩]

end

end Lib
