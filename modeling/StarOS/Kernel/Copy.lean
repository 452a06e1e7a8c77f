import StarOS.Exec.Regions
import StarOS.Kernel.Typed

/-!
# Copying the mapping of a process (`copy_process_mapping`)

One entry of the page directory is copied, that of the 4MB slot of `start`, whatever the range is.

* `Walkable f s paging`   the kernel's directory and those of the processes lead to page tables only;
* `copied_walk`        after the copy the kernel translates the addresses of the slot as the process does,
                       all others as before, and so does the process;
* `CopiesRange`        what a copy of the range would be;
* `copies_range_iff`   it is one exactly when the part of the range past the slot of `start` agrees before,
                       and for an empty range the slot does.
-/

namespace StarOS
open Lib Frames

/-! ## page tables -/

/-- whatever is copied, an entry of the kernel's directory leads to a page table -/
structure Walkable (f : Frames) (s : Kernel) (paging : Paging) : Prop where
  tables : ∃ c, Tables f s paging c
  kernel : ∀ j < 1024, (paging.entry kernelDirectory j).p = true →
    ∃ d i, f.At (paging.entry kernelDirectory j).table (.table d i)

/-- an entry that shows a table of the directory -/
theorem Holds.table {f : Frames} {paging : Paging} {d j : Nat} (h : Holds f paging d) (hf : f.Ok)
    (hj : j < 1024) (hp : (paging.entry d j).p = true) : ∃ i, f.At (paging.entry d j).table (.table d i) := by
  have hslot := h.slot j hj
  rw [hslot.p] at hp
  obtain ⟨t, ht⟩ := Option.isSome_iff_exists.mp hp
  rw [ht] at hslot
  have hat := at_of_table ht
  rw [hslot.table hat.aligned (At.lt32 hf hat)]
  exact ⟨j, hat⟩

section
variable {f : Frames} {s : Kernel} {paging : Paging} {p : Nat}

theorem Walkable.copy (hf : f.Ok) (h : Walkable f s paging) (hp : p < s.created) (start : UInt32) :
    Walkable f s (Kernel.copyEntry s.kernelPagingDirectory (s.directory p) paging start) := by
  obtain ⟨c, hc⟩ := h.tables
  refine ⟨⟨_, hc.copy hf hp start⟩, fun j hj hpj => ?_⟩
  have hlt : dirIndex start.toNat < 1024 := dirIndex_lt start.toNat_lt
  rw [Kernel.copyEntry, hc.kernel] at hpj ⊢
  by_cases e : j = dirIndex start.toNat
  · subst e
    rw [entry_setEntry, PTE.decode_encode] at hpj ⊢
    obtain ⟨i, hi⟩ := (hc.holds p hp).table hf hlt hpj
    exact ⟨_, i, hi⟩
  · rw [entry_setEntry_apart _ _ (by omega)] at hpj ⊢
    exact h.kernel j hj hpj

theorem Walkable.copies (hf : f.Ok) (hp : p < s.created) (starts : List UInt32) (h : Walkable f s paging) :
    Walkable f s (starts.foldl (Kernel.copyEntry s.kernelPagingDirectory (s.directory p)) paging) := by
  induction starts generalizing paging with
  | nil => exact h
  | cons start starts ih => exact ih (h.copy hf hp start)

/-- the translations after a copy -/
theorem copied_walk (hf : f.Ok) (h : Walkable f s paging) (hp : p < s.created) (start : UInt32) {x : Nat}
    (hx : x < 2^32) :
    let after := Kernel.copyEntry s.kernelPagingDirectory (s.directory p) paging start
    checkAddressMapping after x (s.directory p) = checkAddressMapping paging x (s.directory p) ∧
      checkAddressMapping after x s.kernelPagingDirectory =
        if dirIndex x = dirIndex start.toNat then checkAddressMapping paging x (s.directory p)
        else checkAddressMapping paging x s.kernelPagingDirectory := by
  intro after
  obtain ⟨c, hc⟩ := h.tables
  have hc' := hc.copy hf hp start
  have hprocess : checkAddressMapping after x (s.directory p) = checkAddressMapping paging x (s.directory p) := by
    rw [(hc.holds p hp).walk hf hx, (hc'.holds p hp).walk hf hx]
  refine ⟨hprocess, ?_⟩
  by_cases e : dirIndex x = dirIndex start.toNat
  · have hentry := (hc'.copied (dirIndex start.toNat) p (Function.update_self _ _ _)).2.2
    rw [if_pos e, ← hprocess, hc.kernel]
    refine walk_same ?_
    rw [e]
    exact hentry
  · rw [if_neg e]
    have hk := hc.kernel
    have hlt : dirIndex start.toNat < 1024 := dirIndex_lt start.toNat_lt
    have hslot : after.entry s.kernelPagingDirectory (dirIndex x)
        = paging.entry s.kernelPagingDirectory (dirIndex x) := entry_setEntry_apart _ _ (by omega)
    refine walk_congr hslot fun hp0 => ?_
    rw [hk] at hp0 ⊢
    obtain ⟨d, i, hat⟩ := h.kernel _ (dirIndex_lt hx) hp0
    show (Kernel.copyEntry s.kernelPagingDirectory _ _ _).entry _ _ = _
    rw [Kernel.copyEntry, hk]
    exact entry_setEntry_frame _ hat.aligned hf.kernel.aligned (hat.ne hf.kernel (by intro e; cases e))
      (tableIndex_lt x) hlt

end

/-! ## runs -/

namespace Kernel

/-- a step once the scheduler runs: no process is created -/
def Runs (s : Kernel) (a : Action) (t : Kernel) : Prop := (∀ image, a ≠ .execv image) ∧ s.Step a t

structure Copying (f : Frames) (s : Kernel) : Prop where
  inv : s.Inv
  current : ∀ p, s.currentProcess = some p → p < s.created
  walkable : Walkable f s s.paging

section
variable {f : Frames} {s t : Kernel} {a : Action}

/-- the current process is one that was created -/
theorem Step.current_lt (hs : s.Step a t) (hi : s.Inv) (h : ∀ p, s.currentProcess = some p → p < s.created) :
    ∀ p, t.currentProcess = some p → p < t.created := by
  cases hs.outcome hi with
  | enqueued image => exact fun p hp => Nat.lt_succ_of_lt (h p hp)
  | idle => exact h
  | dispatched kernel flags p ready hq =>
    intro q hcur
    rw [← Option.some.inj (show some p = some q from hcur)]
    exact (hi.placed.mem_iff p).mpr (.inl (hq ▸ List.mem_cons_self))
  | ticked => exact h
  | preempted => exact h
  | typed => exact h
  | answered => exact h
  | served => exact h
  | gets => exact fun _ hcur => by cases hcur
  | sleep => exact fun _ hcur => by cases hcur

theorem current_run {b : BootState} {as : List Action} {k : Kernel} (h : Path Step (boot b) as k) :
    ∀ p, k.currentProcess = some p → p < k.created := by
  have hboth : k.Inv ∧ ∀ p, k.currentProcess = some p → p < k.created :=
    h.inv (I := fun s => s.Inv ∧ ∀ p, s.currentProcess = some p → p < s.created)
      (fun _ _ _ hi hs => ⟨inv_step hi.1 hs, hs.current_lt hi.1 hi.2⟩)
      ⟨inv_boot b, fun _ hp => by cases hp⟩
  exact hboth.2

theorem copying_step (hf : f.Ok) (h : Copying f s) (hs : s.Runs a t) : Copying f t := by
  obtain ⟨ha, hs⟩ := hs
  obtain ⟨hn, hk, hd⟩ := hs.directory h.inv ha
  refine ⟨inv_step h.inv hs, hs.current_lt h.inv h.current, ?_⟩
  have hw : Walkable f s t.paging := by
    rcases hs.paging h.inv ha with ⟨-, hp⟩ | ⟨p, -, hlt, hp⟩
    · rw [hp]
      exact h.walkable
    · rw [hp]
      exact h.walkable.copies hf hlt a.copies
  obtain ⟨c, hc⟩ := hw.tables
  exact ⟨⟨c, hc.congr hn hk hd⟩, hw.kernel⟩

end

/-- the state the scheduler starts in -/
theorem copying_started {s : Loader} {f : Frames} (h : Shape s f) {k : Kernel} (hk : Started s k) :
    Copying f k := by
  have hi := Typing.inv_start h hk
  obtain ⟨b, as, hrun⟩ := hk.reached
  refine ⟨hi.kernel, current_run hrun, ⟨⟨_, hi.tables⟩, fun j hj hp => ?_⟩⟩
  rw [hk.paging] at hp ⊢
  obtain ⟨i, hat⟩ := (h.holds h.ok.kernel).table h.ok hj hp
  exact ⟨_, i, hat⟩

/-! ## the range -/

/-- the addresses of the range lie in the slot `j` among others -/
def Touches (start count : UInt32) (j : Nat) : Prop :=
  ∃ k < count.toNat, dirIndex (start + UInt32.ofNat k).toNat = j

/-- the translation through the kernel's directory -/
def kernelWalk (s : Kernel) (address : UInt32) : Option Nat :=
  checkAddressMapping s.paging address.toNat s.kernelPagingDirectory

/-- the translation through the directory of the process `p` -/
def processWalk (s : Kernel) (p : Nat) (address : UInt32) : Option Nat :=
  checkAddressMapping s.paging address.toNat (s.directory p)

/-- the kernel translates the range as the process does, and what lies in other slots as it did -/
structure CopiesRange (s t : Kernel) (p : Nat) (start count : UInt32) : Prop where
  range : ∀ k < count.toNat,
    t.kernelWalk (start + UInt32.ofNat k) = t.processWalk p (start + UInt32.ofNat k)
  apart : ∀ address, ¬ Touches start count (dirIndex address.toNat) →
    t.kernelWalk address = s.kernelWalk address

section
variable {f : Frames} {s : Kernel} {p : Nat} {start count : UInt32}

theorem copies_iff (hf : f.Ok) (h : Copying f s) (hp : p < s.created) {t : Kernel}
    (ht : t = { s with paging := copyEntry s.kernelPagingDirectory (s.directory p) s.paging start }) :
    CopiesRange s t p start count ↔
      (count = 0 → ∀ address, dirIndex address.toNat = dirIndex start.toNat →
        s.kernelWalk address = s.processWalk p address) ∧
      ∀ k < count.toNat, dirIndex (start + UInt32.ofNat k).toNat ≠ dirIndex start.toNat →
        s.kernelWalk (start + UInt32.ofNat k) = s.processWalk p (start + UInt32.ofNat k) := by
  have hprocess : ∀ address, t.processWalk p address = s.processWalk p address := by
    intro address
    rw [ht]
    exact (copied_walk hf h.walkable hp start address.toNat_lt).1
  have hkernel : ∀ address, t.kernelWalk address = if dirIndex address.toNat = dirIndex start.toNat
      then s.processWalk p address else s.kernelWalk address := by
    intro address
    rw [ht]
    exact (copied_walk hf h.walkable hp start address.toNat_lt).2
  constructor
  · intro hc
    refine ⟨fun h0 address he => ?_, fun k hk hne => ?_⟩
    · have hnot : ¬ Touches start count (dirIndex address.toNat) := by
        rintro ⟨k, hk, -⟩
        rw [h0] at hk
        exact absurd hk (Nat.not_lt_zero k)
      have hapart := hc.apart address hnot
      rw [hkernel, if_pos he] at hapart
      exact hapart.symm
    · have hrange := hc.range k hk
      rw [hkernel, if_neg hne, hprocess] at hrange
      exact hrange
  · rintro ⟨hempty, hpast⟩
    refine ⟨fun k hk => ?_, fun address hnot => ?_⟩
    · rw [hkernel, hprocess]
      by_cases e : dirIndex (start + UInt32.ofNat k).toNat = dirIndex start.toNat
      · rw [if_pos e]
      · rw [if_neg e]
        exact hpast k hk e
    · rw [hkernel]
      by_cases e : dirIndex address.toNat = dirIndex start.toNat
      · rw [if_pos e]
        by_cases h0 : count = 0
        · exact (hempty h0 address e).symm
        · -- the first address of the range lies in the slot
          have hpos : 0 < count.toNat := Nat.pos_of_ne_zero fun hz => h0 (UInt32.toNat_inj.mp hz)
          refine absurd ⟨0, hpos, ?_⟩ hnot
          rw [e]
          exact congrArg (fun x : UInt32 => dirIndex x.toNat) (UInt32.add_zero start)
      · rw [if_neg e]

theorem copyProcessMapping_ok (hp : s.currentProcess = some p) (start : UInt32) (hcount : count.toNat ≤ 4194304) :
    copyProcessMapping s start count = .ok { s with
      paging := copyEntry s.kernelPagingDirectory (s.directory p) s.paging start } := by
  rw [copyProcessMapping, current_of_some hp]
  exact if_neg (Nat.not_lt.mpr hcount)

end

/-- **`copy_process_mapping(start, count)` copies the mapping of the range exactly when the addresses of
the range past the 4MB slot of `start` are translated alike before, and, for an empty range, those of the
slot are.**  The state is any that is reached after the programs are loaded. -/
theorem copies_range_iff (mem : Mem) (files : List File) (hfiles : ∀ f ∈ files, Accepted f) (s : Loader)
    (hs : Loader.run files (Loader.boot mem) = .ok ⟨⟩ s) (k : Kernel) (hk : Started s k)
    (as : List Action) (t : Kernel) (ht : Path Runs k as t) (p : Nat)
    (hp : t.currentProcess = some p) (start count : UInt32) (hcount : count.toNat ≤ 4194304) :
    ∃ u, copyProcessMapping t start count = .ok u ∧
      (CopiesRange t u p start count ↔
        (count = 0 → ∀ address, dirIndex address.toNat = dirIndex start.toNat →
          t.kernelWalk address = t.processWalk p address) ∧
        ∀ i < count.toNat, dirIndex (start + UInt32.ofNat i).toNat ≠ dirIndex start.toNat →
          t.kernelWalk (start + UInt32.ofNat i) = t.processWalk p (start + UInt32.ofNat i)) := by
  obtain ⟨f, hshape, -⟩ := run_ok mem hfiles hs
  have hcopying := ht.inv (fun _ _ _ hc hstep => copying_step hshape.ok hc hstep) (copying_started hshape hk)
  exact ⟨_, copyProcessMapping_ok hp start hcount,
    copies_iff hshape.ok hcopying (hcopying.current p hp) rfl⟩

/-! ## a range over the end of a slot -/

/-- the first of two processes runs -/
def firstRuns (s : Loader) (d d' : Nat) : Kernel := (Typing.twoReady s d d').next (.dispatch ring0 0x202)

theorem firstRuns_path (s : Loader) (d d' : Nat) :
    Path Runs (Typing.twoReady s d d') [.dispatch ring0 0x202] (firstRuns s d d') := by
  have hring0 : ¬ ring0.user := by decide
  exact ⟨_, ⟨(fun _ h => by cases h), step_next ⟨hring0, hring0⟩ rfl⟩, rfl⟩

/-- one byte on the stack -/
theorem copies_range_one : ∃ s d d' u,
    Loader.run (List.replicate 2 smallProgram) (Loader.boot fun _ => 0) = .ok ⟨⟩ s ∧
      copyProcessMapping (firstRuns s d d') 0x0feff000 1 = .ok u ∧
      CopiesRange (firstRuns s d d') u 0 0x0feff000 1 := by
  obtain ⟨s, hs⟩ := smallPrograms_complete (n := 2) (by decide)
  obtain ⟨f, d, d', -, hd, -⟩ := Typing.two_directories hs
  obtain ⟨u, hu, hiff⟩ := copies_range_iff (fun _ => 0) _ (accepted_replicate smallProgram_accepted 2) s hs _
    (Typing.started_two hd) _ _ (firstRuns_path s d d') 0 rfl 0x0feff000 1 (by decide)
  refine ⟨s, d, d', u, hs, hu, hiff.mpr ⟨fun h => absurd h (by decide), fun i hi hne => ?_⟩⟩
  have h1 : (1 : UInt32).toNat = 1 := rfl
  obtain rfl : i = 0 := by omega
  exact absurd rfl hne

/-- the kernel does not translate the pages of the stack as a process does -/
theorem stack_not_shared {files : List File} (hfiles : ∀ f ∈ files, Accepted f) {s : Loader}
    (hs : Loader.run files (Loader.boot fun _ => 0) = .ok ⟨⟩ s) {d : Nat} (hd : d ∈ s.directories) :
    checkAddressMapping s.paging 0x0feff000 s.kernelPagingDirectory
      ≠ checkAddressMapping s.paging 0x0feff000 d := by
  obtain ⟨f, hf, hshape⟩ := alike_ok (alike_run (fun _ => 0) hfiles) hs
  have hb := (run_ends hfiles).of_ok hf
  rw [hshape.directories] at hd
  obtain ⟨hat, hk⟩ := hshape.ok.processes d hd
  have hlt : 0x0feff000 < 2^32 := by decide
  have e : 0x0feff000 / 4096 = 0xfeff := rfl
  have e' : 0x0feff000 % 4096 = 0 := rfl
  have hstack := (hb.complete d hd).stack _ (stackPage_mem (p := 0xfeff) ⟨by decide, by decide⟩)
  have hpage : (Request.stackPage (4096 * 0xfeff)).page = 0xfeff := rfl
  rw [hpage] at hstack
  obtain ⟨y, hy⟩ := Option.ne_none_iff_exists'.mp hstack
  have hnot : ¬ KernelPage 0xfeff := by
    rw [kernelPage_iff]
    omega
  have hlow := ((hshape.ok.own d _ y hk hy).resolve_left fun h => hnot h.1).low
  rw [hshape.kernel, hshape.walk hshape.ok.kernel hlt, hshape.walk hat hlt, e, e', hy]
  intro heq
  obtain ⟨x, hx, hxy⟩ := Option.map_eq_some_iff.mp heq
  have hxy : x + 0 = y + 0 := hxy
  rw [freeMemoryPageStart_eq] at hlow
  rcases (kernelShown_run hfiles hf).self _ _ hx with h | ⟨h, -⟩
  · omega
  · rw [testPage_eq] at h
    omega

/-- **A buffer of 4MB that starts below the slot of the stack is not copied.** -/
theorem copies_one_slot : ¬ ∀ (mem : Mem) (files : List File), (∀ f ∈ files, Accepted f) → ∀ s : Loader,
    Loader.run files (Loader.boot mem) = .ok ⟨⟩ s → ∀ k, Started s k → ∀ as t, Path Runs k as t →
    ∀ p, t.currentProcess = some p → ∀ start count : UInt32, count.toNat ≤ 4194304 →
      ∃ u, copyProcessMapping t start count = .ok u ∧ CopiesRange t u p start count := by
  intro hall
  have hacc := accepted_replicate smallProgram_accepted 2
  obtain ⟨s, hs⟩ := smallPrograms_complete (n := 2) (by decide)
  obtain ⟨f, d, d', hshape, hd, -⟩ := Typing.two_directories hs
  have hstart := Typing.started_two hd
  have hpath := firstRuns_path s d d'
  obtain ⟨u, hu, hcopies⟩ := hall _ _ hacc s hs _ hstart _ _ hpath 0 rfl 0x0fbfffff 0x400000 (by decide)
  have hc := hpath.inv (fun _ _ _ hc hstep => copying_step hshape.ok hc hstep)
    (copying_started hshape hstart)
  have hcount : (0x400000 : UInt32).toNat ≤ 4194304 := by decide
  obtain rfl := Except.ok.inj ((copyProcessMapping_ok (p := 0) rfl 0x0fbfffff hcount).symm.trans hu)
  have hiff := (copies_iff hshape.ok hc (hc.current 0 rfl) rfl).mp hcopies
  have hwalk := hiff.2 0x2ff001 (by decide) (by decide)
  have hmem : d ∈ s.directories := by
    rw [hd]
    exact List.mem_cons_self
  exact stack_not_shared hacc hs hmem hwalk

end Kernel

end StarOS
