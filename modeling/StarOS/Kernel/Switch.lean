import StarOS.Kernel.Queues

/-!
# Taking a process off the CPU and putting it back

The registers of a process go through the trap frame into its context, stay there while other
processes run, and are loaded by `switch_to_process`.

* `Suspends a r r'`   the step `a` takes the running process off the CPU when its registers are
                      `r`, and `r'` is what it should find when it runs again;
* `Saved`             where the registers are in between: in the context, or in the context but for
                      the `eax` that the answer to `gets` will set;
* `registers_restored_iff`   all registers come back, `eflags` only if `pushf` in
                      `switch_to_process` happens to push its old value.
-/

namespace StarOS
open Lib

/-- the steps that take the running process off the CPU, with its registers at that moment and the
registers it should have when it runs again -/
inductive Suspends : Action → Regs → Regs → Prop
  | timer (t : Trap) : Suspends (.timer t) t.regs t.regs
  | sleep (t : Trap) (eax : t.regs.eax = 5) : Suspends (.syscall t) t.regs t.regs
  | gets (t : Trap) (eax : t.regs.eax = 4) :
      Suspends (.syscall t) t.regs { t.regs with eax := t.regs.ebx }

namespace Kernel

/-- a step after which `p` does not run -/
def StepWithout (p : Nat) (s : Kernel) (a : Action) (t : Kernel) : Prop :=
  s.Step a t ∧ p ∉ t.runningQueue

/-- `p` is the process the next answer to `gets` will wake -/
def Waits (s : Kernel) (p : Nat) : Prop :=
  s.keyboard.gets.enabled = true ∧ s.processWaitingGets = some p

/-- where the registers of a process that is off the CPU are -/
inductive Saved (s : Kernel) (p : Nat) (r r' : Regs) : Prop
  | done (context : (s.procs p).context.toRegs = r') (waits : ¬ s.Waits p)
  | waiting (context : (s.procs p).context.toRegs = r)
      (buffer : r' = { r with eax := s.keyboard.gets.buffer }) (waits : s.Waits p)
  /-- blocked for good: no clock and no answer will wake it -/
  | lost (blocked : p ∈ s.blockingQueue) (waits : ¬ s.Waits p)
      (clocks : ∀ c ∈ s.waitingSleepQueue, c.process ≠ p)

section
variable {s t : Kernel} {p q : Nat} {r r' : Regs} {a : Action}

/-- the frame of a process in ring 3 holds its registers, and the context takes all of them -/
theorem saveContext_regs (cxt : Context) {t : Trap} (hu : t.regs.user) (conditionCode : UInt32) :
    (saveContextFromTrapframe cxt (t.frame conditionCode)).toRegs = t.regs := by
  have h1 : (t.frame conditionCode).oldEsp = t.regs.esp := if_pos hu
  have h2 : (t.frame conditionCode).oldSs = t.regs.ss := if_pos hu
  simp only [saveContextFromTrapframe, h1, h2]
  rfl

theorem offCpu_context_self {tf : TrapFrame} {status : ProcessStatus} :
    (((s.offCpu p tf).setStatus p status).procs p).context
      = saveContextFromTrapframe (s.procs p).context tf := by
  rw [offCpu_procs, if_pos rfl]

theorem offCpu_context_of_ne {tf : TrapFrame} {status : ProcessStatus} (h : p ≠ q) :
    (((s.offCpu q tf).setStatus q status).procs p).context = (s.procs p).context := by
  rw [offCpu_procs, if_neg h]

theorem Inv.not_waits (hi : s.Inv) (hp : p ∉ s.blockingQueue) : ¬ s.Waits p := by
  rintro ⟨he, hw⟩
  obtain ⟨q, hq, hb, -⟩ := hi.waiter he
  have e : q = p := Option.some.inj (hq.symm.trans hw)
  exact hp (e ▸ hb)

/-! ## what a step does to a process that is off the CPU -/

/-- the context and the request of `p` stay; so does `Saved` -/
theorem Saved.of_same (h : s.Saved p r r')
    (hc : (t.procs p).context.toRegs = (s.procs p).context.toRegs)
    (hg : t.keyboard.gets = s.keyboard.gets) (hw : t.processWaitingGets = s.processWaitingGets)
    (hb : p ∈ s.blockingQueue → (∀ c ∈ s.waitingSleepQueue, c.process ≠ p) → p ∈ t.blockingQueue)
    (hk : (∀ c ∈ s.waitingSleepQueue, c.process ≠ p) → ∀ c ∈ t.waitingSleepQueue, c.process ≠ p) :
    t.Saved p r r' := by
  have hiff : t.Waits p ↔ s.Waits p := by rw [Waits, Waits, hg, hw]
  cases h with
  | done context waits => exact .done (hc.trans context) fun h => waits (hiff.mp h)
  | waiting context buffer waits =>
    refine .waiting (hc.trans context) ?_ (hiff.mpr waits)
    rw [hg]
    exact buffer
  | lost blocked waits clocks =>
    exact .lost (hb blocked clocks) (fun h => waits (hiff.mp h)) (hk clocks)

theorem Saved.afterTick (hi : s.Inv) (h : s.Saved p r r') : s.afterTick.Saved p r r' := by
  refine h.of_same ?_ rfl rfl ?_ ?_
  · show ((s.wakeAll _).procs p).context.toRegs = _
    rw [wakeAll_context]
  · intro hb hc
    refine hi.placed.blocking_nodup.mem_sdiff_iff.mpr ⟨hb, fun he => ?_⟩
    obtain ⟨c, hm, e⟩ := List.mem_map.mp ((expiring_sublist _).subset he)
    exact hc c hm e
  · intro hc d hd
    obtain ⟨c, hm, rfl⟩ := List.mem_map.mp hd
    exact hc c (List.mem_filter.mp hm).1

/-- another process blocks in `gets`: a pending request of `p` is lost -/
theorem Saved.getsCalled (hi : s.Inv) (h : s.Saved p r r') (hne : p ≠ q) {t : Trap} :
    (s.getsCalled q t).Saved p r r' := by
  have hw : ¬ (s.getsCalled q t).Waits p := fun hw => hne (Option.some.inj hw.2).symm
  have hc : ((s.getsCalled q t).procs p).context = (s.procs p).context := offCpu_context_of_ne hne
  cases h with
  | done context waits =>
    refine .done ?_ hw
    rw [hc]
    exact context
  | waiting context buffer waits =>
    obtain ⟨q', hq, hb, hcl⟩ := hi.waiter waits.1
    have e : q' = p := Option.some.inj (hq.symm.trans waits.2)
    subst e
    exact .lost (List.mem_append_left _ hb) hw hcl
  | lost blocked waits clocks => exact .lost (List.mem_append_left _ blocked) hw clocks

theorem Saved.typed (hi : s.Inv) (h : s.Saved p r r') {t : Trap} {x : Response}
    (hx : ps2KeyboardInterrupt s.keyboard t.data = .ok x) : (s.typed x t).Saved p r r' := by
  obtain ⟨-, hbuf, hoff⟩ := interrupt_gets hx
  have hon : (s.typed x t).Waits p → s.Waits p := by
    rintro ⟨he, hw⟩
    refine ⟨?_, hw⟩
    by_contra hf
    exact absurd ((hoff (Bool.eq_false_iff.mpr hf)).symm.trans he) Bool.false_ne_true
  cases h with
  | done context waits => exact .done context fun h => waits (hon h)
  | waiting context buffer waits =>
    by_cases he : x.keyboard.gets.enabled = true
    · refine .waiting context ?_ ⟨he, waits.2⟩
      show r' = { r with eax := x.keyboard.gets.buffer }
      rw [hbuf]
      exact buffer
    · obtain ⟨q, hq, hb, hcl⟩ := hi.waiter waits.1
      have e : q = p := Option.some.inj (hq.symm.trans waits.2)
      subst e
      exact .lost hb (fun h => he h.1) hcl
  | lost blocked waits clocks => exact .lost blocked (fun h => waits (hon h)) clocks

/-- the answer to `gets` completes the registers of the process that waits -/
theorem Saved.answer (hi : s.Inv) (h : s.Saved p r r') {t : Trap} {x : Response}
    (hx : ps2KeyboardInterrupt s.keyboard t.data = .ok x) (hon : s.keyboard.gets.enabled = true)
    (hdone : x.keyboard.gets.enabled = false) (hq : s.processWaitingGets = some q) :
    ((s.typed x t).answer q).Saved p r r' := by
  obtain ⟨-, hbuf, -⟩ := interrupt_gets hx
  have hw : ¬ ((s.typed x t).answer q).Waits p := fun h =>
    absurd (hdone.symm.trans h.1) Bool.false_ne_true
  have hctx : (((s.typed x t).answer q).procs p).context
      = if p = q then { (s.procs p).context with eax := x.keyboard.gets.buffer }
        else (s.procs p).context := by
    show ((((s.typed x t).modify q _).wakeAll [q]).procs p).context = _
    rw [wakeAll_context]
    show (if p = q then _ else s.procs p).context = _
    split <;> rfl
  cases h with
  | done context waits =>
    have hne : p ≠ q := fun e => waits ⟨hon, e ▸ hq⟩
    refine .done ?_ hw
    rw [hctx, if_neg hne]
    exact context
  | waiting context buffer waits =>
    have e : p = q := Option.some.inj (waits.2.symm.trans hq)
    refine .done ?_ hw
    rw [hctx, if_pos e, hbuf, buffer, ← context]
  | lost blocked waits clocks =>
    have hne : p ≠ q := fun e => waits ⟨hon, e ▸ hq⟩
    refine .lost ?_ hw clocks
    exact hi.placed.blocking_nodup.mem_sdiff_iff.mpr
      ⟨blocked, fun h => hne (List.mem_singleton.mp h)⟩

/-- whatever step is taken, if `p` neither runs before nor after it -/
theorem saved_step (hi : s.Inv) (hp : p < s.created) (hr : p ∉ s.runningQueue) (h : s.Saved p r r')
    (hs : StepWithout p s a t) : t.Saved p r r' := by
  obtain ⟨hs, hr'⟩ := hs
  cases hs.outcome hi with
  | enqueued image P gdt =>
    refine h.of_same ?_ rfl rfl (fun hb _ => hb) (fun hc => hc)
    show (if p = s.created then P else s.procs p).context.toRegs = _
    rw [if_neg (Nat.ne_of_lt hp)]
  | idle => exact h
  | dispatched kernel flags q ready =>
    refine h.of_same ?_ rfl rfl (fun hb _ => hb) (fun hc => hc)
    show (if p = q then { s.procs p with status := .running } else s.procs p).context.toRegs = _
    split <;> rfl
  | ticked t => exact (h.afterTick hi).of_same rfl rfl rfl (fun hb _ => hb) (fun hc => hc)
  | preempted t q hq =>
    have hne : p ≠ q := fun e => hr (hq ▸ List.mem_singleton.mpr e)
    refine (h.afterTick hi).of_same ?_ rfl rfl (fun hb _ => hb) (fun hc => hc)
    exact congrArg Context.toRegs (offCpu_context_of_ne hne)
  | typed t x hx => exact h.typed hi hx
  | answered t x q hx _ hon hdone hq => exact h.answer hi hx hon hdone hq
  | served => exact h.of_same rfl rfl rfl (fun hb _ => hb) (fun hc => hc)
  | gets t q pg hq =>
    have hne : p ≠ q := fun e => hr (hq ▸ List.mem_singleton.mpr e)
    have h' : { s with paging := pg }.Saved p r r' :=
      h.of_same rfl rfl rfl (fun hb _ => hb) (fun hc => hc)
    exact h'.getsCalled (hi.paging pg) hne
  | sleep t q hq =>
    have hne : p ≠ q := fun e => hr (hq ▸ List.mem_singleton.mpr e)
    refine h.of_same ?_ rfl rfl (fun hb _ => List.mem_append_left _ hb) fun hc c hm => ?_
    · exact congrArg Context.toRegs (offCpu_context_of_ne hne)
    · rcases List.mem_append.mp hm with hm | hm
      · exact hc c hm
      · rw [List.mem_singleton.mp hm]
        exact hne.symm

theorem saved_suspends (hi : s.Inv) (hp : s.runningQueue = [p]) (ha : Suspends a r r')
    (hs : s.Step a t) : t.Saved p r r' ∧ p ∉ t.runningQueue ∧ p < t.created := by
  have hm : p ∈ s.runningQueue := hp ▸ List.mem_singleton_self p
  have hlt : p < s.created := (hi.placed.mem_iff p).mpr (Or.inr (Or.inl hm))
  have hnw := hi.not_waits (hi.placed.not_blocking_of_running hm)
  have hnil : p ∉ s.runningQueue.erase p := by
    rw [hp, List.erase_cons_head]
    exact List.not_mem_nil
  cases ha with
  | timer x =>
    cases hs.outcome hi with
    | ticked _ hmode => exact absurd ((hi.kernel hmode).2.symm.trans hp) (by simp)
    | preempted _ q hq hu =>
      have e : q = p := List.singleton_inj.mp (hq.symm.trans hp)
      subst e
      refine ⟨.done ?_ hnw, hnil, hlt⟩
      exact (congrArg Context.toRegs offCpu_context_self).trans (saveContext_regs _ hu _)
  | sleep x h5 =>
    obtain rfl := hs.sleep hi hp h5
    refine ⟨.done ?_ hnw, hnil, hlt⟩
    exact (congrArg Context.toRegs offCpu_context_self).trans (saveContext_regs _ hs.1.1 _)
  | gets x h4 =>
    obtain ⟨pg, rfl⟩ := hs.gets hi hp h4
    refine ⟨.waiting ?_ rfl ⟨rfl, rfl⟩, hnil, hlt⟩
    exact (congrArg Context.toRegs offCpu_context_self).trans (saveContext_regs _ hs.1.1 _)

/-- over a run in which `p` stays off the CPU -/
theorem saved_run {as : List Action} (h : Path (StepWithout p) s as t) (hi : s.Inv)
    (hp : p < s.created) (hr : p ∉ s.runningQueue) (hs : s.Saved p r r') :
    t.Inv ∧ t.Saved p r r' := by
  have hcreated : ∀ {s t : Kernel} {a : Action}, s.Inv → s.Step a t → s.created ≤ t.created := by
    intro s t a hi hs
    cases hs.outcome hi <;> first | exact Nat.le_refl _ | exact Nat.le_succ _
  have hall := h.inv (I := fun s => s.Inv ∧ p < s.created ∧ p ∉ s.runningQueue ∧ s.Saved p r r')
    (fun s a t hk ha => ⟨inv_step hk.1 ha.1, Nat.lt_of_lt_of_le hk.2.1 (hcreated hk.1 ha.1), ha.2,
      saved_step hk.1 hk.2.1 hk.2.2.1 hk.2.2.2 ha⟩) ⟨hi, hp, hr, hs⟩
  exact ⟨hall.1, hall.2.2.2⟩

end

/-- **When a process that was taken off the CPU is dispatched again, it finds the registers it had,
with the buffer in `eax` after `gets`, exactly if `pushf` in `switch_to_process` pushes the value
its `eflags` had.** -/
theorem registers_restored_iff (b : BootState) (as bs : List Action) (s s₁ s₂ s₃ : Kernel) (p : Nat)
    (a : Action) (r r' kernel : Regs) (flags : UInt32)
    (hrun : Path Step (boot b) as s) (hp : s.runningQueue = [p])
    (ha : Suspends a r r') (hs : s.Step a s₁)
    (hoff : Path (StepWithout p) s₁ bs s₂)
    (hd : s₂.Step (.dispatch kernel flags) s₃) (hp₃ : s₃.runningQueue = [p]) :
    s₃.cpu = r' ↔ flags = r.eflags := by
  have hi := inv_run hrun
  obtain ⟨hsaved, hr₁, hlt⟩ := saved_suspends hi hp ha hs
  obtain ⟨hi₂, hsaved₂⟩ := saved_run hoff (inv_step hi hs) hlt hr₁ hsaved
  have hr₂ : s₂.runningQueue = [] := (hi₂.kernel hd.1.1).2
  have hflags : r'.eflags = r.eflags := by cases ha <;> rfl
  cases hd.outcome hi₂ with
  | idle => exact absurd (hp₃.symm.trans hr₂) (by simp)
  | dispatched _ _ q ready hq =>
    have e : q = p := by
      have hp₃ : s₂.runningQueue ++ [q] = [p] := hp₃
      rw [hr₂] at hp₃
      exact List.singleton_inj.mp hp₃
    subst e
    have hready : q ∈ s₂.readyQueue := hq ▸ List.mem_cons_self
    have hnb := hi₂.placed.not_blocking_of_ready hready
    -- a process in `ready_queue` has all its registers in its context
    have hctx : (s₂.procs q).context.toRegs = r' := by
      cases hsaved₂ with
      | done context => exact context
      | waiting _ _ waits => exact absurd waits (hi₂.not_waits hnb)
      | lost blocked => exact absurd blocked hnb
    have hcpu : (s₂.dispatched q ready kernel flags).cpu = { r' with eflags := flags } := by
      rw [← hctx]
      show { (if q = q then { s₂.procs q with status := .running } else s₂.procs q).context.toRegs with
        eflags := flags } = _
      rw [if_pos rfl]
    rw [hcpu, ← hflags]
    refine ⟨fun h => congrArg Regs.eflags h, fun h => ?_⟩
    rw [h]

/-- a process is preempted and dispatched with the flags it had -/
theorem registers_restored_iff_one :
    let r := { ring3 with eax := 7, eflags := 0x246 }
    let s₁ := oneRuns.next (.timer (trapOf r 0))
    (s₁.next (.dispatch ring0 0x246)).cpu = r := by
  intro r s₁
  exact (registers_restored_iff smallMachine _ [] oneRuns s₁ s₁ _ 0 (.timer (trapOf r 0)) r r ring0
    0x246 oneRuns_run rfl (.timer _) (step_next (by decide) rfl) rfl (step_next (by decide) rfl)
    rfl).mpr rfl

/-- **A process whose zero flag was set is dispatched with the flags of the kernel.** -/
theorem flags_not_restored : ¬ ∀ (b : BootState) (as bs : List Action) (s s₁ s₂ s₃ : Kernel) (p : Nat)
    (a : Action) (r r' kernel : Regs) (flags : UInt32), Path Step (boot b) as s →
    s.runningQueue = [p] → Suspends a r r' → s.Step a s₁ → Path (StepWithout p) s₁ bs s₂ →
    s₂.Step (.dispatch kernel flags) s₃ → s₃.runningQueue = [p] → s₃.cpu = r' := by
  intro hall
  let r : Regs := { ring3 with eflags := 0x246 }
  let s₁ := oneRuns.next (.timer (trapOf r 0))
  have h := hall smallMachine _ [] oneRuns s₁ s₁ _ 0 (.timer (trapOf r 0)) r r ring0 0x202
    oneRuns_run rfl (.timer _) (step_next (by decide) rfl) rfl (step_next (by decide) rfl) rfl
  have h := congrArg Regs.eflags h
  exact absurd h (by decide)

end Kernel
end StarOS
