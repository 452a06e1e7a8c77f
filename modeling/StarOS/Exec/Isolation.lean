import StarOS.Exec.Pool

/-!
# What ring 3 reaches (`execv`, `add_memory_mapping`, `add_kernel_mappings`)

`reaches s d p` is the frame that ring 3 reads and writes at page `p` of the directory `d`: both
entries are present and both are of the user level.

* `reaches_eq`         in a process directory that is the frame the page is mapped to;
* `Isolated pages s`   at these pages the processes share no frame, and none is the kernel's;
* `processes_isolated` at the pages outside `Kernel_maps` they are isolated; the pages of `Kernel_maps`
                       are open to ring 3 in every process;
* `kernel_text_shared` so at all pages they are not.
-/

namespace StarOS
open Lib Frames

/-- the frame ring 3 reaches at page `p` of the directory `d` -/
def Paging.reaches (s : Paging) (d p : Nat) : Option Nat :=
  let dirEntry := s.entry d (p / 1024)
  if dirEntry.p && dirEntry.userOrSupervisor then
    let entry := s.entry dirEntry.table (p % 1024)
    if entry.p && entry.userOrSupervisor then some (entry.address.val * 4096) else none
  else none

/-- the frame at `x` is used as a page directory or a page table -/
def Loader.Structure (s : Loader) (x : Nat) : Prop :=
  ∃ d, (d = s.kernelPagingDirectory ∨ d ∈ s.directories) ∧
    (x = d ∨ ∃ j < 1024, (s.paging.entry d j).p = true ∧ (s.paging.entry d j).table = x)

/-- the processes at the pages `pages`: no frame is reached in two of them, and none belongs to the
text, the data, the heap or the page tables of the kernel -/
structure Isolated (pages : Nat → Prop) (s : Loader) : Prop where
  apart : ∀ d ∈ s.directories, ∀ d' ∈ s.directories, d ≠ d' → ∀ p < 2^20, ∀ p' < 2^20, pages p → pages p' →
    ∀ x, s.paging.reaches d p = some x → s.paging.reaches d' p' ≠ some x
  kernel : ∀ d ∈ s.directories, ∀ p < 2^20, pages p → ∀ x, s.paging.reaches d p = some x →
    ¬ (textMemoryStart ≤ x ∧ x < dataMemoryEnd) ∧
    ¬ (freeMemoryStart ≤ x ∧ x < freeMemoryStart + freeMemoryLength) ∧ ¬ s.Structure x

theorem PTE.present_user (u : Bool) (x : Nat) :
    (PTE.decode (PTE.present u x).encode).userOrSupervisor = u := by
  have h : (PTE.present u x).encode / 4 % 2 = u.toNat := by
    cases u <;> simp only [PTE.encode, PTE.present, Bool.toNat_true, Bool.toNat_false,
      Fin.val_zero] <;> omega
  simp only [PTE.decode, h]
  cases u <;> rfl

theorem PTE.Maps.user {e : PTE} {u : Bool} {x : Nat} (h : e.Maps u (some x)) : e.userOrSupervisor = u := by
  have h : e = _ := h
  rw [h, PTE.present_user]

/-- the directory of a process is open to ring 3 wherever it is mapped -/
theorem reaches_eq {s : Loader} {a : Frames} (h : Shape s a) {d p : Nat} (hd : a.At d .directory)
    (hk : d ≠ kernelDirectory) (hp : p < 2^20) : s.paging.reaches d p = a.map d p := by
  have hu : userLevel d = true := bne_iff_ne.mpr hk
  have hslot := h.slot d hd (p / 1024) (by omega)
  rw [hu] at hslot
  unfold Paging.reaches
  cases ht : a.table d (p / 1024) with
  | none =>
    rw [ht] at hslot
    rw [h.ok.dom d p ht]
    simp only [hslot.p]
    rfl
  | some t =>
    rw [ht] at hslot
    have hat := at_of_table ht
    have hleaf := h.leaf d _ t ht (p % 1024) (Nat.mod_lt _ (by decide))
    have e : 1024 * (p / 1024) + p % 1024 = p := Nat.div_add_mod p 1024
    rw [hu, e] at hleaf
    simp only [hslot.p, hslot.user, hslot.table hat.aligned (At.lt32 h.ok hat)]
    cases hm : a.map d p with
    | none =>
      rw [hm] at hleaf
      simp only [hleaf.p]
      rfl
    | some x =>
      obtain ⟨hx, hlt⟩ := h.ok.physical d p x hm
      rw [hm] at hleaf
      have he : s.paging.entry t (p % 1024) = _ := hleaf
      simp only [he, PTE.present_p, PTE.present_user, PTE.present_address true hlt hx]
      rfl

/-- a frame with a directory or a page table -/
theorem structure_use {s : Loader} {a : Frames} (h : Shape s a) {x : Nat} (hx : s.Structure x) :
    a.At x .directory ∨ ∃ d j, a.At x (.table d j) := by
  obtain ⟨d, hd, hx⟩ := hx
  have hat : a.At d .directory := by
    rcases hd with hd | hd
    · rw [hd, h.kernel]
      exact h.ok.kernel
    · rw [h.directories] at hd
      exact (h.ok.processes d hd).1
  rcases hx with rfl | ⟨j, hj, hp, ht⟩
  · exact .inl hat
  · have hslot := h.slot d hat j hj
    rw [hslot.p] at hp
    obtain ⟨t, hs⟩ := Option.isSome_iff_exists.mp hp
    rw [hs] at hslot
    have htat := at_of_table hs
    rw [hslot.table htat.aligned (At.lt32 h.ok htat)] at ht
    exact .inr ⟨d, j, ht ▸ htat⟩

/-- at the pages outside `Kernel_maps` a process has frames of its own -/
theorem isolated_of_shape {s : Loader} {a : Frames} (h : Shape s a) :
    Isolated (fun p => ¬ KernelPage p) s := by
  have hown : ∀ d ∈ s.directories, ∀ p < 2^20, ¬ KernelPage p → ∀ x,
      s.paging.reaches d p = some x → a.At x (.page d) := by
    intro d hd p hp hpage x hx
    rw [h.directories] at hd
    obtain ⟨hat, hk⟩ := h.ok.processes d hd
    rw [reaches_eq h hat hk hp] at hx
    exact (h.ok.own d p x hk hx).resolve_left fun e => hpage e.1
  refine ⟨?_, ?_⟩
  · intro d hd d' hd' hne p hp p' hp' hpage hpage' x hx hx'
    have h1 := hown d hd p hp hpage x hx
    have h2 := hown d' hd' p' hp' hpage' x hx'
    injection h1.unique h2 with e
    exact hne e
  · intro d hd p hp hpage x hx
    have hat := hown d hd p hp hpage x hx
    have hlow := hat.low
    rw [freeMemoryPageStart_eq] at hlow
    refine ⟨?_, ?_, fun hs => ?_⟩
    · have e : dataMemoryEnd = 0x59005000 := rfl
      rw [e]
      omega
    · rw [freeMemoryStart_eq, freeMemoryLength_eq]
      omega
    · rcases structure_use h hs with hs | ⟨d', j, hs⟩
      · exact absurd (hat.unique hs) (by intro e; cases e)
      · exact absurd (hat.unique hs) (by intro e; cases e)

/-- what the loader leaves when no call halts -/
theorem run_ok (mem : Mem) {files : List File} (hf : ∀ f ∈ files, Accepted f) {s : Loader}
    (hs : Loader.run files (Loader.boot mem) = .ok ⟨⟩ s) :
    ∃ a, Shape s a ∧ Between (framesNeeded files) files.length [] a := by
  have hlike := alike_run mem hf
  have hends := run_ends hf
  cases ha : run files boot with
  | ok u a =>
    rw [hs, ha] at hlike
    cases hlike with
    | ok hI => exact ⟨a, hI, hends.of_ok ha⟩
  | error e a =>
    rw [hs, ha] at hlike
    cases hlike

/-- the pages of `Kernel_maps` are open in every process -/
theorem kernel_reached {s : Loader} {a : Frames} (h : Shape s a)
    (hc : ∀ d ∈ a.directories, Complete d a) :
    ∀ d ∈ s.directories, ∀ p, KernelPage p → s.paging.reaches d p = some (4096 * p) := by
  intro d hd p hp
  rw [h.directories] at hd
  obtain ⟨hat, hk⟩ := h.ok.processes d hd
  have hlt : p < 2^20 := by
    rw [kernelPage_iff] at hp
    omega
  rw [reaches_eq h hat hk hlt]
  exact (hc d hd).kernel p hp

/-- **Processes are isolated outside `Kernel_maps`, and only there**: after any calls of `execv` no
frame that ring 3 reaches at such a page of one process is reached at such a page of another, none is
the kernel's text, data or heap, a page directory or a page table; every page of `Kernel_maps` is
reached by ring 3 in every process, where it is mapped to itself. -/
theorem processes_isolated (mem : Mem) (files : List File) (hf : ∀ f ∈ files, Accepted f) (s : Loader)
    (hs : Loader.run files (Loader.boot mem) = .ok ⟨⟩ s) :
    Isolated (fun p => ¬ KernelPage p) s ∧ s.directories.length = files.length ∧
      ∀ d ∈ s.directories, ∀ p, KernelPage p → s.paging.reaches d p = some (4096 * p) := by
  obtain ⟨a, hI, hb⟩ := run_ok mem hf hs
  refine ⟨isolated_of_shape hI, ?_, kernel_reached hI hb.complete⟩
  rw [hI.directories]
  exact hb.loaded

/-! ## runs that do not halt -/

theorem run_completes (mem : Mem) {files : List File} (hf : ∀ f ∈ files, Accepted f)
    (h : framesNeeded files ≤ frameLimit) :
    ∃ s, Loader.run files (Loader.boot mem) = .ok ⟨⟩ s := by
  have hlike := alike_run mem hf
  have hends := run_ends hf
  cases hs : Loader.run files (Loader.boot mem) with
  | ok u s => exact ⟨s, rfl⟩
  | error e s =>
    cases ha : run files boot with
    | ok u a =>
      rw [hs, ha] at hlike
      cases hlike
    | error e' a =>
      rw [ha] at hends
      cases hends with
      | error h' => exact absurd h (Nat.not_le.mpr h'.2)

theorem smallPrograms_complete {n : Nat} (hn : n ≤ 50) :
    ∃ s, Loader.run (List.replicate n smallProgram) (Loader.boot fun _ => 0) = .ok ⟨⟩ s := by
  refine run_completes _ (accepted_replicate smallProgram_accepted n) ?_
  have hle := framesOf_le smallProgram
  rw [smallProgram_segments] at hle
  have hmul : n * framesOf smallProgram ≤ 50 * (510 + 2 * 1) := Nat.mul_le_mul hn hle
  rw [framesNeeded, List.map_replicate, List.sum_replicate]
  show 254 + n * framesOf smallProgram ≤ 26619
  omega

/-- two processes of one program -/
theorem processes_isolated_two : ∃ s, Loader.run (List.replicate 2 smallProgram) (Loader.boot fun _ => 0)
    = .ok ⟨⟩ s ∧ Isolated (fun p => ¬ KernelPage p) s ∧ s.directories.length = 2 := by
  obtain ⟨s, hs⟩ := smallPrograms_complete (n := 2) (by decide)
  have h := processes_isolated (fun _ => 0) (List.replicate 2 smallProgram)
    (accepted_replicate smallProgram_accepted 2) s hs
  exact ⟨s, hs, h.1, h.2.1⟩

/-- ring 3 reaches the first page of the kernel's text -/
theorem kernel_text_shared : ¬ ∀ (mem : Mem) (files : List File), (∀ f ∈ files, Accepted f) →
    ∀ s, Loader.run files (Loader.boot mem) = .ok ⟨⟩ s → Isolated (fun _ => True) s := by
  intro hall
  have hf := accepted_replicate smallProgram_accepted 1
  obtain ⟨s, hs⟩ := smallPrograms_complete (n := 1) (by decide)
  obtain ⟨a, hI, hb⟩ := run_ok _ hf hs
  have hlen : s.directories.length = 1 := by
    rw [hI.directories]
    exact hb.loaded
  obtain ⟨d, hd⟩ := List.length_eq_one_iff.mp hlen
  have hd : d ∈ s.directories := by
    rw [hd]
    exact List.mem_singleton_self d
  have hpage : KernelPage 0x40005 := (kernelPage_iff _).mpr (by omega)
  have htext := ((hall _ _ hf s hs).kernel d hd 0x40005 (by decide) trivial _
    (kernel_reached hI hb.complete d hd _ hpage)).1
  exact htext ⟨by decide, by decide⟩

end StarOS
