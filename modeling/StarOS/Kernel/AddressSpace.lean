import StarOS.Kernel.Copy

/-!
# The page directory that is loaded

`switch_to_process` loads `cr3` with the directory of the process, and `restore_context_to_trapframe` with what
`save_context` found there.

* `AddressSpace`       the scheduler runs with the kernel's directory, a process with its own;
* `addressSpace_step`, `addressSpace_run`   this holds in every run;
* `processByte`, `Private`   the byte a process finds at an address, and the addresses it has for itself.
-/

namespace StarOS
open Lib

namespace Kernel

structure AddressSpace (s : Kernel) : Prop where
  scheduler : ¬ s.UserMode → s.cr3 = s.kernelPagingDirectory
  process : s.UserMode → ∃ p, s.currentProcess = some p ∧ s.cr3 = s.directory p
  /-- what the way back to the scheduler loads -/
  saved : s.UserMode → s.kernelProc.pageDirectory = s.kernelPagingDirectory

section
variable {s t : Kernel} {a : Action} {p : Nat}

theorem AddressSpace.current (h : s.AddressSpace) (hu : s.UserMode) (hp : s.currentProcess = some p) :
    s.cr3 = s.directory p := by
  obtain ⟨q, hq, hcr3⟩ := h.process hu
  rw [Option.some.inj (hp.symm.trans hq), hcr3]

/-- the ring, the directories and what is loaded stay -/
theorem AddressSpace.keep (h : s.AddressSpace) (hmode : t.UserMode ↔ s.UserMode)
    (hkernel : t.kernelPagingDirectory = s.kernelPagingDirectory) (hcr3 : t.cr3 = s.cr3)
    (hsaved : t.kernelProc.pageDirectory = s.kernelProc.pageDirectory) (hcur : t.currentProcess = s.currentProcess)
    (hdir : ∀ p, s.currentProcess = some p → t.directory p = s.directory p) : t.AddressSpace where
  scheduler := by
    intro hu
    rw [hcr3, hkernel]
    exact h.scheduler fun hs => hu (hmode.mpr hs)
  process := by
    intro hu
    obtain ⟨p, hp, hd⟩ := h.process (hmode.mp hu)
    exact ⟨p, hcur.trans hp, by rw [hcr3, hdir p hp, hd]⟩
  saved := by
    intro hu
    rw [hsaved, hkernel]
    exact h.saved (hmode.mp hu)

/-- the running process leaves the CPU -/
theorem AddressSpace.leave (h : s.AddressSpace) (hu : s.UserMode) (hmode : ¬ t.UserMode)
    (hkernel : t.kernelPagingDirectory = s.kernelPagingDirectory) (hcr3 : t.cr3 = s.kernelProc.pageDirectory) :
    t.AddressSpace where
  scheduler := fun _ => by rw [hcr3, hkernel, h.saved hu]
  process := fun ht => absurd ht hmode
  saved := fun ht => absurd ht hmode

theorem addressSpace_step (hi : s.Inv) (hcur : ∀ p, s.currentProcess = some p → p < s.created) (h : s.AddressSpace)
    (hs : s.Step a t) : t.AddressSpace := by
  have hen := hs.1
  have hrunning : ∀ {q}, s.runningQueue = [q] → s.UserMode := by
    intro q hq
    by_contra hu
    obtain ⟨-, hnil⟩ := hi.kernel hu
    cases hq.symm.trans hnil
  have hdir : (∀ image, a ≠ .execv image) → ∀ p, s.currentProcess = some p → t.directory p = s.directory p :=
    fun ha p _ => (hs.directory hi ha).2.2 p
  cases hs.outcome hi with
  | enqueued image P gdt =>
    refine h.keep Iff.rfl rfl rfl rfl rfl fun p hp => ?_
    -- the new process is none of those there are
    have hne : p ≠ s.created := Nat.ne_of_lt (hcur p hp)
    show (if p = s.created then P else s.procs p).context.pageDirectory = _
    rw [if_neg hne]
    rfl
  | idle => exact h
  | dispatched kernel flags p ready hq hm =>
    have huser : (s.dispatched p ready kernel flags).UserMode := by
      have hlt : p < s.created := (hi.placed.mem_iff p).mpr (.inl (hq ▸ List.mem_cons_self))
      have hcs : (s.dispatched p ready kernel flags).cpu.cs = (s.procs p).context.cs := by
        simp [dispatched, switchToProcess, setStatus]
      show (s.dispatched p ready kernel flags).cpu.cs &&& 3 = 3
      rw [hcs]
      exact hi.user_context p hlt
    exact ⟨fun hu => absurd huser hu, fun _ => ⟨p, rfl, rfl⟩, fun _ => h.scheduler hm⟩
  | ticked x hm hx => exact h.keep (iff_of_false hx hm) rfl rfl rfl rfl (hdir fun _ e => by cases e)
  | preempted x p hr hu => exact h.leave (hrunning hr) hi.kernel_context rfl rfl
  | typed x r hr hm => exact h.keep hm rfl rfl rfl rfl fun _ _ => rfl
  | answered x r p hr hm =>
    exact h.keep hm rfl rfl rfl rfl (hdir fun _ e => by cases e)
  | served x paging eax hx hu =>
    exact h.keep ⟨fun _ => hu, fun _ => hx⟩ rfl rfl rfl rfl fun _ _ => rfl
  | gets x p paging hr hx => exact h.leave (hrunning hr) hi.kernel_context rfl rfl
  | sleep x p hr hx => exact h.leave (hrunning hr) hi.kernel_context rfl rfl

end

theorem addressSpace_run {b : BootState} {as : List Action} {k : Kernel} (h : Path Step (boot b) as k) :
    k.AddressSpace := by
  have hall := h.inv (I := fun s => s.Inv ∧ (∀ p, s.currentProcess = some p → p < s.created) ∧ s.AddressSpace)
    (fun _ _ _ hi hs => ⟨inv_step hi.1 hs, hs.current_lt hi.1 hi.2.1, addressSpace_step hi.1 hi.2.1 hi.2.2 hs⟩)
    ⟨inv_boot b, (fun _ hp => by cases hp), ⟨fun _ => rfl, fun hu => absurd hu b.ring0, fun hu => absurd hu b.ring0⟩⟩
  exact hall.2.2

/-- an address as the CPU translates it -/
def translate (s : Kernel) (address : UInt32) : Option Nat := checkAddressMapping s.paging address.toNat s.cr3

/-- the byte that the process `p` finds at an address, 0 where nothing is mapped -/
def processByte (s : Kernel) (p : Nat) (a : UInt32) : UInt8 := (s.processWalk p a).elim 0 s.paging.mem

/-- the address is mapped for the process, outside the maps of the kernel -/
def Private (s : Kernel) (p : Nat) (a : UInt32) : Prop :=
  (s.processWalk p a).isSome ∧ ¬ KernelPage (a.toNat / 4096)

theorem copyEntry_mem (kernel directory : Nat) (paging : Paging) (start : UInt32) {x : Nat}
    (hx : x < kernel ∨ kernel + 4096 ≤ x) : (copyEntry kernel directory paging start).mem x = paging.mem x := by
  have hlt : dirIndex start.toNat < 1024 := dirIndex_lt start.toNat_lt
  exact write32_apart (by omega)

theorem foldl_copyEntry_mem (kernel directory : Nat) (starts : List UInt32) (paging : Paging) {x : Nat}
    (hx : x < kernel ∨ kernel + 4096 ≤ x) :
    (starts.foldl (copyEntry kernel directory) paging).mem x = paging.mem x := by
  induction starts generalizing paging with
  | nil => rfl
  | cons start starts ih =>
    rw [List.foldl_cons, ih, copyEntry_mem kernel directory paging start hx]

end Kernel
end StarOS
