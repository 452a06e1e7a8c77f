import StarOS.Kernel.Queues

/-!
# `CURRENT_PROCESS`

`kernel.h`: "points to current running process. used by interrupt service routine or system_entry to distinguish
between interrupt from kernel and user space program. nullptr if from kernel. set in scheduler. maybe modified in
interrupt or syscall."

* `Agrees`        `CURRENT_PROCESS`, `Current_control_flow` and `running_queue` name the same
                  process, and no process while the kernel runs;
* `agrees_step`   every step keeps this but a timer interrupt that finds a process running: it goes
                  back to the scheduler with `CURRENT_PROCESS` unchanged (`not_agrees_preempt`);
* `current_agrees_iff`   the same for runs.
-/

namespace StarOS
open Lib

namespace Kernel

structure Agrees (s : Kernel) : Prop where
  flow : s.currentProcess.isSome ↔ s.currentControlFlow = .processThread
  running : s.currentControlFlow = .processThread ↔
    ∃ p, s.currentProcess = some p ∧ s.runningQueue = [p]
  kernel : ¬ s.UserMode → s.currentProcess = none

/-- a timer interrupt finds the kernel running -/
def NotPreempting (s : Kernel) (a : Action) : Prop :=
  ∀ t, a = .timer t → s.Enabled a → ¬ s.UserMode

section
variable {s : Kernel}

/-- what `Inv` leaves open is the scheduler's `CURRENT_PROCESS` -/
theorem Inv.agrees_iff (hi : s.Inv) : s.Agrees ↔ (¬ s.UserMode → s.currentProcess = none) := by
  refine ⟨Agrees.kernel, fun hk => ?_⟩
  rcases hi.thread with ⟨hu, hc, p, hr, hp⟩ | ⟨hu, hc, hr⟩
  · refine ⟨?_, ?_, hk⟩
    · simp [hp, hc]
    · exact ⟨fun _ => ⟨p, hp, hr⟩, fun _ => hc⟩
  · refine ⟨?_, ?_, hk⟩
    · simp [hk hu, hc]
    · simp [hk hu, hc]

/-- the timer's way to the scheduler does not touch `CURRENT_PROCESS` -/
theorem not_agrees_preempt (hi : s.Inv) {p : Nat} (hp : s.currentProcess = some p) (t : Trap) :
    ¬ (s.afterTick.preempt p (t.frame 0x30)).Agrees := by
  intro ha
  have hnone := ha.kernel hi.kernel_context
  have hsome : (s.afterTick.preempt p (t.frame 0x30)).currentProcess = some p := hp
  rw [hsome] at hnone
  cases hnone

theorem agrees_step {a : Action} {t : Kernel} (hi : s.Inv) (ha : s.Agrees) (hn : s.NotPreempting a)
    (hs : s.Step a t) : t.Agrees := by
  refine (inv_step hi hs).agrees_iff.mpr ?_
  have hen := hs.1
  have hk := ha.kernel
  cases hs.outcome hi with
  | enqueued => exact hk
  | idle => exact hk
  | dispatched kernel flags p ready hq hm hr =>
    intro hu
    have hlt : p < s.created := (hi.placed.mem_iff p).mpr (Or.inl (hq ▸ List.mem_cons_self))
    have hcs : (s.dispatched p ready kernel flags).cpu.cs = (s.procs p).context.cs := by
      simp [dispatched, switchToProcess, setStatus]
    refine absurd ?_ hu
    show (s.dispatched p ready kernel flags).cpu.cs &&& 3 = 3
    rw [hcs]
    exact hi.user_context p hlt
  | ticked x hm => exact fun _ => hk hm
  | preempted x p hr hu => exact absurd (hen.mp hu) (hn x rfl hen)
  | typed x r h hm => exact fun hu => hk fun hs => hu (hm.mpr hs)
  | answered x r p h hm => exact fun hu => hk fun hs => hu (hm.mpr hs)
  | served x pg eax hu => exact fun hnu => absurd hu hnu
  | gets => exact fun _ => rfl
  | sleep => exact fun _ => rfl

theorem agrees_iff_notPreempting {a : Action} (hi : s.Inv) (ha : s.Agrees) :
    (∀ t, s.Step a t → t.Agrees) ↔ s.NotPreempting a := by
  refine ⟨fun h t e hen hu => ?_, fun hn t hs => agrees_step hi ha hn hs⟩
  subst e
  obtain ⟨u, hstep, ho⟩ := timer_outcome hi hen
  have hagrees := h u ⟨hen, hstep⟩
  cases ho with
  | ticked _ hm => exact hm hu
  | preempted _ p hr =>
    obtain ⟨-, q, hq, hp⟩ := hi.user hu
    have e : q = p := List.singleton_inj.mp (hq.symm.trans hr)
    exact not_agrees_preempt hi (e ▸ hp) t hagrees

end

theorem agrees_boot (b : BootState) : (boot b).Agrees :=
  (inv_boot b).agrees_iff.mpr fun _ => rfl

/-- **In every state that a run reaches, `CURRENT_PROCESS` is a process exactly if
`Current_control_flow` is `Process_thread`, exactly if it is the one process of `running_queue`, and
it is null in the scheduler; exactly if no timer interrupt of the run finds a process running.** -/
theorem current_agrees_iff (b : BootState) (as : List Action) :
    (∀ bs s, bs <+: as → Path Step (boot b) bs s → s.Agrees) ↔
      Along Step NotPreempting (boot b) as := by
  have hiff := Along.iff_of_inv (I := fun s => s.Inv ∧ s.Agrees) (P := fun _ _ => True)
    (Q := fun s a => ∀ t, s.Step a t → t.Agrees) (R := NotPreempting)
    (fun s a t hi _ hn hs => ⟨inv_step hi.1 hs, agrees_step hi.1 hi.2 hn hs⟩)
    (fun s a hi _ => agrees_iff_notPreempting hi.1 hi.2)
    ⟨inv_boot b, agrees_boot b⟩ (along_of_labels (fun _ _ _ => trivial) (boot b) : Along Step _ _ as)
  rw [forall_reached_iff, hiff]
  exact and_iff_right (agrees_boot b)

/-- **A timer interrupt preempts the process that runs, and `CURRENT_PROCESS` still names it while
the scheduler runs.** -/
theorem current_after_preemption : ¬ ∀ (b : BootState) (as : List Action) (s : Kernel),
    Path Step (boot b) as s → s.Agrees := by
  intro hall
  have h : Path Step (boot smallMachine) ([.execv smallImage, .dispatch ring0 0x202] ++
      [.timer (trapOf ring3 0)]) (oneRuns.next (.timer (trapOf ring3 0))) :=
    path_snoc.mpr ⟨_, oneRuns_run, step_next (by decide) rfl⟩
  have hnone := (hall smallMachine _ _ h).kernel (by decide)
  exact absurd hnone (by decide)

end Kernel
end StarOS
