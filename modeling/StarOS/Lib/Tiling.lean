import Mathlib

/-!
# Tilings of an interval by half-open spans

`Tiles base len l`: the spans of the list `l` lie in `[base, base + len)`, two different ones
never share a point, and their lengths add up to `len`.  Empty spans are allowed and harmless.

* `Tiles.perm`    the order of the list does not matter;
* `tiles_split`   cutting one span in two (or joining two that meet) keeps a tiling a tiling;
* `tiles_single`  the whole interval is a tiling.
-/

namespace Lib

/-- the half-open interval `[lo, hi)` -/
structure Span where
  lo : Nat
  hi : Nat
deriving DecidableEq, Repr

namespace Span

def length (s : Span) : Nat := s.hi - s.lo

/-- no point lies in both spans -/
def Apart (s t : Span) : Prop := s.hi ≤ s.lo ∨ t.hi ≤ t.lo ∨ s.hi ≤ t.lo ∨ t.hi ≤ s.lo

theorem Apart.symm {s t : Span} (h : s.Apart t) : t.Apart s := by
  unfold Apart at *
  omega

end Span

/-- the spans of `l` cut `[base, base + len)` into pieces -/
structure Tiles (base len : Nat) (l : List Span) : Prop where
  inside : ∀ s ∈ l, base ≤ s.lo ∧ s.lo ≤ s.hi ∧ s.hi ≤ base + len
  apart : l.Pairwise Span.Apart
  total : (l.map Span.length).sum = len

theorem tiles_single (base len : Nat) : Tiles base len [⟨base, base + len⟩] where
  inside := by
    intro s hs
    rw [List.mem_singleton.mp hs]
    exact ⟨Nat.le_refl _, Nat.le_add_right _ _, Nat.le_refl _⟩
  apart := List.pairwise_singleton _ _
  total := by simp [Span.length]

theorem Tiles.perm {base len : Nat} {l l' : List Span} (h : Tiles base len l) (hp : l.Perm l') :
    Tiles base len l' where
  inside := fun s hs => h.inside s (hp.mem_iff.mpr hs)
  apart := (hp.pairwise_iff Span.Apart.symm).mp h.apart
  total := by rw [← (hp.map Span.length).sum_eq]; exact h.total

/-- cutting a span at a point inside it, and joining two spans that meet -/
theorem tiles_split {base len a b c : Nat} {l : List Span} (hab : a ≤ b) (hbc : b ≤ c) :
    Tiles base len (⟨a, c⟩ :: l) ↔ Tiles base len (⟨a, b⟩ :: ⟨b, c⟩ :: l) := by
  constructor
  · intro h
    have hin := h.inside ⟨a, c⟩ (List.mem_cons_self ..)
    have hap := List.pairwise_cons.mp h.apart
    have ht := h.total
    refine ⟨?_, ?_, ?_⟩
    · intro s hs
      rcases List.mem_cons.mp hs with rfl | hs
      · exact ⟨hin.1, hab, Nat.le_trans hbc hin.2.2⟩
      rcases List.mem_cons.mp hs with rfl | hs
      · exact ⟨Nat.le_trans hin.1 hab, hbc, hin.2.2⟩
      · exact h.inside s (List.mem_cons_of_mem _ hs)
    · refine List.pairwise_cons.mpr ⟨?_, List.pairwise_cons.mpr ⟨?_, hap.2⟩⟩
      · intro s hs
        rcases List.mem_cons.mp hs with rfl | hs
        · exact Or.inr (Or.inr (Or.inl (Nat.le_refl b)))
        · have h1 := hap.1 s hs
          simp only [Span.Apart] at *
          omega
      · intro s hs
        have h1 := hap.1 s hs
        simp only [Span.Apart] at *
        omega
    · simp only [List.map_cons, List.sum_cons, Span.length] at *
      omega
  · intro h
    have hin1 := h.inside ⟨a, b⟩ (List.mem_cons_self ..)
    have hin2 := h.inside ⟨b, c⟩ (List.mem_cons_of_mem _ (List.mem_cons_self ..))
    have hap1 := List.pairwise_cons.mp h.apart
    have hap2 := List.pairwise_cons.mp hap1.2
    have ht := h.total
    refine ⟨?_, ?_, ?_⟩
    · intro s hs
      rcases List.mem_cons.mp hs with rfl | hs
      · exact ⟨hin1.1, Nat.le_trans hab hbc, hin2.2.2⟩
      · exact h.inside s (List.mem_cons_of_mem _ (List.mem_cons_of_mem _ hs))
    · refine List.pairwise_cons.mpr ⟨?_, hap2.2⟩
      intro s hs
      have hs1 := hap1.1 s (List.mem_cons_of_mem _ hs)
      have hs2 := hap2.1 s hs
      have hsi := h.inside s (List.mem_cons_of_mem _ (List.mem_cons_of_mem _ hs))
      simp only [Span.Apart] at *
      omega
    · simp only [List.map_cons, List.sum_cons, Span.length] at *
      omega

end Lib
