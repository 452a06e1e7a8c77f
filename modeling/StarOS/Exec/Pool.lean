import StarOS.Exec.Represent

/-!
# The pool of pages (`alloc_page` of `stdlib.cpp`)

`alloc_page` never compares its pointer with the end of the pool.  `InPool log`: the pages of the log
are whole pages, apart from each other and inside the pool.

* `handedOut_run`      the log of a run is the first frames, as many as `framesNeeded` says or all up
                       to `frameLimit`;
* `pool_respected_iff` the pages stay in the pool as long as the files need no more than it has;
* `pool_exceeded`      50 calls of `execv` on the smallest programs need more.
-/

namespace StarOS
open Lib Frames

/-- the pages are aligned, disjoint and inside the pool -/
structure InPool (log : List Nat) : Prop where
  aligned : ∀ p ∈ log, p % pageSize = 0
  disjoint : log.Pairwise fun p q => p + pageSize ≤ q ∨ q + pageSize ≤ p
  inside : ∀ p ∈ log, freeMemoryPageStart ≤ p ∧
    p + pageSize ≤ freeMemoryPageStart + freeMemoryPageLength

/-- the pages of the pool -/
def poolPages : Nat := freeMemoryPageLength / pageSize

theorem poolPages_eq : poolPages = 25600 := rfl

theorem inPool_iff (n : Nat) : InPool ((List.range n).map frameAt) ↔ n ≤ poolPages := by
  constructor
  · intro h
    by_contra hn
    -- the first frame after the pool
    have hm : frameAt poolPages ∈ (List.range n).map frameAt :=
      List.mem_map_of_mem (List.mem_range.mpr (by omega))
    have hin := (h.inside _ hm).2
    rw [frameAt_eq, poolPages_eq, freeMemoryPageStart_eq, freeMemoryPageLength_eq, pageSize_eq] at hin
    omega
  · intro hn
    refine ⟨?_, ?_, ?_⟩
    · intro p hp
      obtain ⟨i, -, rfl⟩ := List.mem_map.mp hp
      rw [frameAt_eq, pageSize_eq]
      omega
    · refine List.Pairwise.map _ (fun i j hij => ?_) List.pairwise_lt_range
      rw [frameAt_eq, frameAt_eq, pageSize_eq]
      omega
    · intro p hp
      obtain ⟨i, hi, rfl⟩ := List.mem_map.mp hp
      have hi := List.mem_range.mp hi
      rw [poolPages_eq] at hn
      rw [frameAt_eq, freeMemoryPageStart_eq, freeMemoryPageLength_eq, pageSize_eq]
      omega

theorem uses_run {files : List File} (hf : ∀ f ∈ files, Accepted f) :
    (final (run files boot)).uses.length = min (framesNeeded files) frameLimit := by
  have hok : ∀ (_ : PUnit) a, Between (framesNeeded files) files.length [] a →
      a.uses.length = min (framesNeeded files) frameLimit := by
    intro _ a h
    have hlen := h.length
    have hfew := h.ok.few
    rw [List.map_nil, List.sum_nil, Nat.add_zero] at hlen
    rw [hlen] at hfew ⊢
    exact (Nat.min_eq_left hfew).symm
  have herror : ∀ (_ : Fatal) (a : Frames),
      (a.uses.length = frameLimit ∧ frameLimit < framesNeeded files) →
      a.uses.length = min (framesNeeded files) frameLimit := by
    rintro _ a ⟨hlen, hlt⟩
    rw [hlen]
    exact (Nat.min_eq_right hlt.le).symm
  have h := Ends.final (run_ends hf) (Q := fun a => a.uses.length = min (framesNeeded files) frameLimit)
    hok herror
  exact h

/-- the pages handed out in the calls of `execv`, whether the kernel halted in them or not -/
theorem handedOut_run (mem : Mem) {files : List File} (hf : ∀ f ∈ files, Accepted f) :
    (final (Loader.run files (Loader.boot mem))).handedOut
      = (List.range (min (framesNeeded files) frameLimit)).map frameAt := by
  have hlog := (Alike.final (alike_run mem hf)).log
  rw [uses_run hf] at hlog
  exact hlog

/-- **The pages `alloc_page` hands out are whole, disjoint pages of the pool exactly when the
directories, page tables, segments and stacks of the files need no more pages than the pool has.** -/
theorem pool_respected_iff (mem : Mem) (files : List File) (hf : ∀ f ∈ files, Accepted f) :
    InPool (final (Loader.run files (Loader.boot mem))).handedOut ↔ framesNeeded files ≤ poolPages := by
  rw [handedOut_run mem hf, inPool_iff, poolPages_eq, frameLimit]
  omega

/-! ## how many frames a file needs -/

theorem framesOf_le (f : File) : framesOf f ≤ 510 + 2 * (segmentRequests f).length := by
  have h1 : (slotsOf (segmentRequests f)).card ≤ (segmentRequests f).length := by
    rw [slotsOf, ← List.length_map (f := Request.slot)]
    exact List.toFinset_card_le _
  have h2 := Finset.card_union_le (slotsOf (segmentRequests f)) {0x3f}
  have h3 := Finset.card_union_le (slotsOf (segmentRequests f) ∪ {0x3f}) kernelSlots
  rw [kernelSlots_card] at h3
  rw [Finset.card_singleton] at h2
  unfold framesOf
  omega

theorem le_framesOf (f : File) : 509 + (segmentRequests f).length ≤ framesOf f := by
  have h1 : kernelSlots.card ≤ (slotsOf (segmentRequests f) ∪ {0x3f} ∪ kernelSlots).card :=
    Finset.card_le_card Finset.subset_union_right
  rw [kernelSlots_card] at h1
  unfold framesOf
  omega

/-- a program of four bytes, loaded at `0x8048054` -/
def smallProgram : File :=
  [0x7f, 0x45, 0x4c, 0x46, 1, 1, 1, 0, 0, 0, 0, 0, 0, 0, 0, 0, 2, 0, 3, 0, 1, 0, 0, 0,
    0x54, 0x80, 0x04, 0x08, 52, 0, 0, 0, 0, 0, 0, 0, 0, 0, 0, 0, 52, 0, 32, 0, 1, 0, 40, 0, 0, 0, 0, 0,
    1, 0, 0, 0, 84, 0, 0, 0, 0x54, 0x80, 0x04, 0x08, 0x54, 0x80, 0x04, 0x08, 4, 0, 0, 0, 4, 0, 0, 0,
    5, 0, 0, 0, 0, 0x10, 0, 0, 0xeb, 0xfe, 0x90, 0x90]

theorem smallProgram_accepted : Accepted smallProgram := by
  rw [accepted_iff]
  exact ⟨by decide, by decide +kernel, by decide +kernel⟩

theorem smallProgram_segments : (segmentRequests smallProgram).length = 1 := by decide +kernel

/-- one small program fits -/
theorem pool_respected_one : InPool (final (Loader.run [smallProgram] (Loader.boot fun _ => 0))).handedOut := by
  refine (pool_respected_iff (fun _ => 0) [smallProgram] ?_).mpr ?_
  · intro f hf
    rw [List.mem_singleton.mp hf]
    exact smallProgram_accepted
  · have h := framesOf_le smallProgram
    rw [smallProgram_segments] at h
    rw [framesNeeded, List.map_singleton, List.sum_singleton, poolPages_eq]
    exact (Nat.add_le_add_left h 254).trans (by decide)

/-- no 50 programs do -/
theorem framesNeeded_replicate (f : File) {n : Nat} (hn : 50 ≤ n) :
    poolPages < framesNeeded (List.replicate n f) := by
  have hge := le_framesOf f
  have hmul : 50 * 509 ≤ n * framesOf f := Nat.mul_le_mul hn (by omega)
  rw [framesNeeded, List.map_replicate, List.sum_replicate, poolPages_eq]
  show 25600 < 254 + n * framesOf f
  omega

theorem accepted_replicate {f : File} (h : Accepted f) (n : Nat) :
    ∀ g ∈ List.replicate n f, Accepted g := by
  intro g hg
  rw [List.eq_of_mem_replicate hg]
  exact h

/-- with 50 small programs a page outside the pool is handed out -/
theorem pool_exceeded : ¬ ∀ (mem : Mem) (files : List File), (∀ f ∈ files, Accepted f) →
    InPool (final (Loader.run files (Loader.boot mem))).handedOut := by
  intro hall
  have hf := accepted_replicate smallProgram_accepted 50
  have h := hall (fun _ => 0) (List.replicate 50 smallProgram) hf
  rw [handedOut_run _ hf, inPool_iff] at h
  have hlt := framesNeeded_replicate smallProgram (Nat.le_refl 50)
  exact absurd h (Nat.not_le.mpr (lt_min hlt (by decide)))

end StarOS
