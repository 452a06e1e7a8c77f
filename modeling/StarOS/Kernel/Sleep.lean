import StarOS.Kernel.Queues

/-!
# `sleep`

A process that sleeps has a clock in `waiting_sleep_queue`, which every timer interrupt counts down.

* `clock_step`, `clock_tick`   what one step does to a clock;
* `clock_run`          the clock after a run: what it showed less the timer interrupts of the run;
* `wakes_in_time_iff`  `sleep(n)` ends at timer interrupt `1000 * n` exactly if `n` is not 0.  A
                       clock set to 0 goes to -1 at the first tick: it is dropped without waking
                       its process.
-/

namespace StarOS
open Lib

/-- the timer interrupts of a run -/
def ticks (as : List Action) : Nat := as.countP fun a => match a with | .timer _ => true | _ => false

namespace Kernel

/-- after the call that led to `s₁`, `p` stays in `blocking_queue` up to timer interrupt `n`, moves
to `ready_queue` during it, and its clock is gone -/
def WakesAt (s₁ : Kernel) (p n : Nat) : Prop :=
  ∀ as s₂, Path Step s₁ as s₂ →
    (ticks as < n → p ∈ s₂.blockingQueue ∧ (s₂.procs p).status = .blocking) ∧
    (ticks as + 1 = n → ∀ t s₃, s₂.Step (.timer t) s₃ →
      s₂.readyQueue.count p = 0 ∧ s₃.readyQueue.count p = 1 ∧ p ∉ s₃.blockingQueue ∧
      (s₃.procs p).status = .ready ∧ ∀ c ∈ s₃.waitingSleepQueue, c.process ≠ p)

section
variable {s t : Kernel} {p : Nat} {k : Int} {a : Action}

/-- steps that are not timer interrupts leave the clocks alone -/
theorem clock_step (hi : s.Inv) (hc : ⟨k, p⟩ ∈ s.waitingSleepQueue) (hs : s.Step a t)
    (ha : ∀ x, a ≠ .timer x) : ⟨k, p⟩ ∈ t.waitingSleepQueue := by
  cases hs.outcome hi with
  | ticked x => exact absurd rfl (ha x)
  | preempted x => exact absurd rfl (ha x)
  | sleep => exact List.mem_append_left _ hc
  | enqueued => exact hc
  | idle => exact hc
  | dispatched => exact hc
  | typed => exact hc
  | answered => exact hc
  | served => exact hc
  | gets => exact hc

/-- a timer interrupt does to clocks and queues what the tick does, but for the process it
preempts -/
theorem timer_queues (hi : s.Inv) {x : Trap} (hs : s.Step (.timer x) t) :
    t.waitingSleepQueue = s.afterTick.waitingSleepQueue ∧
    t.blockingQueue = s.afterTick.blockingQueue ∧
    ∀ q ∈ s.afterTick.readyQueue, q ∈ t.readyQueue := by
  cases hs.outcome hi with
  | ticked => exact ⟨rfl, rfl, fun q hq => hq⟩
  | preempted => exact ⟨rfl, rfl, fun q hq => List.mem_append_left _ hq⟩

theorem clock_tick (hc : ⟨k, p⟩ ∈ s.waitingSleepQueue) (hk : 1 < k) :
    ⟨k - 1, p⟩ ∈ s.afterTick.waitingSleepQueue :=
  List.mem_map.mpr ⟨⟨k, p⟩, List.mem_filter.mpr ⟨hc, decide_eq_true hk⟩, rfl⟩

/-- the last tick of a clock wakes its process and drops the clock -/
theorem clock_rings (hi : s.Inv) (hc : ⟨1, p⟩ ∈ s.waitingSleepQueue) :
    p ∈ s.afterTick.readyQueue ∧ ∀ c ∈ s.afterTick.waitingSleepQueue, c.process ≠ p := by
  have he : p ∈ expiring s.waitingSleepQueue :=
    List.mem_map.mpr ⟨⟨1, p⟩, List.mem_filter.mpr ⟨hc, rfl⟩, rfl⟩
  refine ⟨List.mem_append_right _ he, fun d hd e => ?_⟩
  obtain ⟨c, hm, rfl⟩ := List.mem_map.mp hd
  obtain ⟨hm, h1⟩ := List.mem_filter.mp hm
  have hgt : c.countDown > 1 := of_decide_eq_true h1
  exact not_mem_expiring hi.clocks_nodup hm (by omega) (by rw [show c.process = p from e]; exact he)

/-- the first tick of a clock that is set to 0 wakes no one -/
theorem clock_zero (hi : s.Inv) (hc : ⟨0, p⟩ ∈ s.waitingSleepQueue) : p ∈ s.afterTick.blockingQueue :=
  hi.placed.blocking_nodup.mem_sdiff_iff.mpr
    ⟨hi.clocks_blocked _ hc, not_mem_expiring hi.clocks_nodup hc (show (0 : Int) ≠ 1 by decide)⟩

theorem clock_run {as : List Action} (hi : s.Inv) (h : Path Step s as t)
    (hc : ⟨k, p⟩ ∈ s.waitingSleepQueue) (hk : (ticks as : Int) < k) :
    ⟨k - ticks as, p⟩ ∈ t.waitingSleepQueue := by
  induction as generalizing s k with
  | nil =>
    cases h
    have e : k - ((ticks [] : Nat) : Int) = k := Int.sub_zero k
    rw [e]
    exact hc
  | cons a as ih =>
    obtain ⟨m, hs, h⟩ := h
    by_cases ha : ∃ x, a = .timer x
    · obtain ⟨x, rfl⟩ := ha
      have e : ticks (.timer x :: as) = ticks as + 1 := List.countP_cons_of_pos rfl
      rw [e] at hk ⊢
      have hc' : ⟨k - 1, p⟩ ∈ m.waitingSleepQueue := by
        rw [(timer_queues hi hs).1]
        exact clock_tick hc (by omega)
      have hr := ih (inv_step hi hs) h hc' (by omega)
      have e : k - 1 - (ticks as : Int) = k - ((ticks as + 1 : Nat) : Int) := by omega
      rw [← e]
      exact hr
    · have ha' : ∀ x, a ≠ .timer x := fun x e => ha ⟨x, e⟩
      have e : ticks (a :: as) = ticks as := by
        apply List.countP_cons_of_neg
        cases a with
        | timer x => exact absurd rfl (ha' x)
        | execv => exact Bool.false_ne_true
        | dispatch => exact Bool.false_ne_true
        | keyboard => exact Bool.false_ne_true
        | syscall => exact Bool.false_ne_true
      rw [e] at hk ⊢
      exact ih (inv_step hi hs) h (clock_step hi hc hs ha') hk

end

theorem wakesAt_of_clock {s : Kernel} {p n : Nat} (hi : s.Inv)
    (hc : ⟨(n : Int), p⟩ ∈ s.waitingSleepQueue) : s.WakesAt p n := by
  intro as s₂ h
  have hi₂ : s₂.Inv := h.inv (fun _ _ _ hi hs => inv_step hi hs) hi
  refine ⟨fun hlt => ?_, fun hlast t s₃ hs => ?_⟩
  · have hb := hi₂.clocks_blocked _ (clock_run hi h hc (by omega))
    exact ⟨hb, hi₂.placed.blocking p hb⟩
  · have hc₂ := clock_run hi h hc (by omega)
    have e : (n : Int) - ticks as = 1 := by omega
    rw [e] at hc₂
    obtain ⟨hready, hgone⟩ := clock_rings hi₂ hc₂
    obtain ⟨hclocks, -, hsub⟩ := timer_queues hi₂ hs
    have hi₃ := inv_step hi₂ hs
    have hr₃ := hsub p hready
    have hnr : p ∉ s₂.readyQueue := fun hr =>
      hi₂.placed.not_blocking_of_ready hr (hi₂.clocks_blocked _ hc₂)
    refine ⟨List.count_eq_zero.mpr hnr, ?_, hi₃.placed.not_blocking_of_ready hr₃,
      hi₃.placed.ready p hr₃, fun c hm => hgone c (hclocks ▸ hm)⟩
    have hnd := (List.nodup_append.mp (List.nodup_append.mp hi₃.placed.nodup).1).1
    exact List.count_eq_one_of_mem hnd hr₃

/-- the scheduler runs after the call, and the next timer interrupt finds the clock at 0 -/
theorem not_wakesAt_of_zero {s : Kernel} {p : Nat} (hi : s.Inv) (hk : ¬ s.UserMode)
    (hc : ⟨0, p⟩ ∈ s.waitingSleepQueue) : ¬ s.WakesAt p 1 := by
  intro hw
  have hen : s.Enabled (.timer (trapOf Regs.zero 0)) :=
    ⟨fun h => absurd h (by decide), fun h => absurd h hk⟩
  obtain ⟨u, hu, -⟩ := timer_outcome hi hen
  obtain ⟨-, hblocking, -⟩ := timer_queues hi ⟨hen, hu⟩
  obtain ⟨-, -, hnb, -⟩ := (hw [] _ rfl).2 rfl _ u ⟨hen, hu⟩
  exact hnb (hblocking ▸ clock_zero hi hc)

/-- **`sleep(n)` blocks the process until timer interrupt `max(1, 1000 * n)`, and that interrupt
moves it to `ready_queue` and drops its clock, exactly if `n` is not 0.** -/
theorem wakes_in_time_iff (b : BootState) (as : List Action) (s s₁ : Kernel) (p : Nat) (t : Trap)
    (hrun : Path Step (boot b) as s) (hp : s.runningQueue = [p]) (h5 : t.regs.eax = 5)
    (hs : s.Step (.syscall t) s₁) :
    s₁.WakesAt p (max 1 (1000 * t.regs.ebx.toNat)) ↔ t.regs.ebx ≠ 0 := by
  have hi := inv_run hrun
  have hi₁ := inv_step hi hs
  obtain rfl := hs.sleep hi hp h5
  have hc : ⟨ticksPerSecond * t.regs.ebx.toNat, p⟩ ∈ (s.sleepCalled p t).waitingSleepQueue :=
    List.mem_append_right _ (List.mem_singleton_self _)
  constructor
  · intro hw h0
    rw [h0] at hw hc
    exact not_wakesAt_of_zero hi₁ hi.kernel_context hc hw
  · intro hne
    have hpos : 0 < t.regs.ebx.toNat := by
      refine Nat.pos_of_ne_zero fun h => hne ?_
      exact UInt32.toNat_inj.mp h
    have e : max 1 (1000 * t.regs.ebx.toNat) = 1000 * t.regs.ebx.toNat := by omega
    rw [e]
    exact wakesAt_of_clock hi₁ hc

/-- a process calls `sleep(n)` as soon as it runs -/
def sleepCall (n : UInt32) : Action := .syscall (trapOf { ring3 with eax := 5, ebx := n } 0)

theorem wakes_in_time_iff_three : (oneRuns.next (sleepCall 3)).WakesAt 0 3000 :=
  (wakes_in_time_iff smallMachine _ oneRuns (oneRuns.next (sleepCall 3)) 0 _ oneRuns_run rfl rfl
    (step_next (by decide) rfl)).mpr (by decide)

/-- **`sleep(0)`: the first timer interrupt drops the clock and leaves the process blocked.** -/
theorem sleep_zero_not_woken : ¬ ∀ (b : BootState) (as : List Action) (s s₁ : Kernel) (p : Nat)
    (t : Trap), Path Step (boot b) as s → s.runningQueue = [p] → t.regs.eax = 5 →
    s.Step (.syscall t) s₁ → s₁.WakesAt p (max 1 (1000 * t.regs.ebx.toNat)) := by
  intro hall
  have hs : oneRuns.Step (sleepCall 0) (oneRuns.next (sleepCall 0)) := step_next (by decide) rfl
  have hi := inv_step (inv_run oneRuns_run) hs
  have hw := hall smallMachine _ oneRuns _ 0 _ oneRuns_run rfl rfl hs
  exact not_wakesAt_of_zero hi (by decide) List.mem_cons_self hw

end Kernel
end StarOS
