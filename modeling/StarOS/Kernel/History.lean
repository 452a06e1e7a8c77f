import StarOS.Kernel.Queues

/-!
# First come, first served

`History` remembers beside the kernel who left `ready_queue` for the CPU, who entered it and when
each process last called `sleep`.  It reads queue membership before and after a step only:

* `leaving`      the processes of `ready_queue` that run after the step;
* `arriving`     the processes in `ready_queue` after the step that were blocked (in the order of
                 their `sleep` calls), that ran, or that did not exist;
* `inv_step`, `inv_run`   the processes that left, followed by `ready_queue`, are those that
                 entered; `waiting_sleep_queue` is in the order of the calls;
* `first_come_first_served`.
-/

namespace StarOS
open Lib

/-- a call of `sleep` -/
def Action.sleeps : Action → Bool
  | .syscall t => t.regs.eax == 5
  | _ => false

structure History where
  kernel : Kernel
  dispatched : List Nat
  entered : List Nat
  steps : Nat
  sleptAt : Nat → Nat

namespace History

def boot (b : BootState) : History := ⟨Kernel.boot b, [], [], 0, fun _ => 0⟩

def leaving (s t : Kernel) : List Nat := s.readyQueue.filter (· ∈ t.runningQueue)

/-- the processes that were blocked and are ready, in the order in which they went to sleep -/
def woken (h : History) (t : Kernel) : List Nat :=
  (h.kernel.blockingQueue.filter (· ∈ t.readyQueue)).mergeSort fun p q => h.sleptAt p ≤ h.sleptAt q

def arriving (h : History) (t : Kernel) : List Nat :=
  h.woken t ++ h.kernel.runningQueue.filter (· ∈ t.readyQueue) ++
    (List.range' h.kernel.created (t.created - h.kernel.created)).filter (· ∈ t.readyQueue)

def record (h : History) (a : Action) (t : Kernel) : History where
  kernel := t
  dispatched := h.dispatched ++ leaving h.kernel t
  entered := h.entered ++ h.arriving t
  steps := h.steps + 1
  sleptAt := fun p => if a.sleeps ∧ p ∈ h.kernel.runningQueue then h.steps else h.sleptAt p

def Step (h : History) (a : Action) (g : History) : Prop :=
  h.kernel.Step a g.kernel ∧ g = h.record a g.kernel

structure Inv (h : History) : Prop where
  kernel : h.kernel.Inv
  fifo : h.dispatched ++ h.kernel.readyQueue = h.entered
  past : ∀ c ∈ h.kernel.waitingSleepQueue, h.sleptAt c.process < h.steps
  /-- the clocks are in the order of the `sleep` calls -/
  clocks : (h.kernel.waitingSleepQueue.map CountDownClock.process).Pairwise
    fun p q => h.sleptAt p < h.sleptAt q

theorem inv_boot (b : BootState) : (boot b).Inv where
  kernel := Kernel.inv_boot b
  fifo := rfl
  past := fun _ hc => absurd hc List.not_mem_nil
  clocks := List.Pairwise.nil

section
variable {h : History} {t : Kernel}

/-! ## who enters and who leaves -/

/-- a sorted list is what the sort makes of any of its rearrangements -/
theorem mergeSort_eq_of_perm {f : Nat → Nat} {l m : List Nat} (hp : m.Perm l)
    (hl : l.Pairwise fun p q => f p < f q) : (m.mergeSort fun p q => f p ≤ f q) = l := by
  have hperm := (List.mergeSort_perm m fun p q => decide (f p ≤ f q)).trans hp
  have htrans : ∀ a b c, decide (f a ≤ f b) → decide (f b ≤ f c) → decide (f a ≤ f c) := by
    intro a b c hab hbc
    exact decide_eq_true (Nat.le_trans (of_decide_eq_true hab) (of_decide_eq_true hbc))
  have htotal : ∀ a b, decide (f a ≤ f b) || decide (f b ≤ f a) := by
    intro a b
    simpa using Nat.le_total (f a) (f b)
  have hinj : (l.map f).Nodup := List.pairwise_map.mpr (hl.imp Nat.ne_of_lt)
  have hsorted := (List.pairwise_mergeSort htrans htotal m).imp fun hab => of_decide_eq_true hab
  refine hperm.eq_of_pairwise (fun p q hp hq h1 h2 => ?_) hsorted (hl.imp Nat.le_of_lt)
  exact List.inj_on_of_nodup_map hinj (hperm.mem_iff.mp hp) hq (Nat.le_antisymm h1 h2)

/-- `ready_queue` after a step: some of the old ones, then `E` from `blocking_queue`, then `R`, which
is `running_queue` or nothing, then `n` new processes -/
structure Arrivals (h : History) (t : Kernel) (E R : List Nat) (n : Nat) : Prop where
  queue : ∃ rest, (∀ p ∈ rest, p ∈ h.kernel.readyQueue) ∧
    t.readyQueue = rest ++ E ++ R ++ List.range' h.kernel.created n
  created : t.created = h.kernel.created + n
  blocked : ∀ p ∈ E, p ∈ h.kernel.blockingQueue
  sorted : E.Pairwise fun p q => h.sleptAt p < h.sleptAt q
  running : R = [] ∨ R = h.kernel.runningQueue

theorem Arrivals.mem {E R : List Nat} {n : Nat} (ha : Arrivals h t E R n) {p : Nat}
    (hp : p ∈ t.readyQueue) : p ∈ h.kernel.readyQueue ∨ p ∈ E ∨ p ∈ R ∨ h.kernel.created ≤ p := by
  obtain ⟨rest, hrest, e⟩ := ha.queue
  rw [e, List.mem_append, List.mem_append, List.mem_append] at hp
  rcases hp with ((hp | hp) | hp) | hp
  · exact Or.inl (hrest p hp)
  · exact Or.inr (Or.inl hp)
  · exact Or.inr (Or.inr (Or.inl hp))
  · exact Or.inr (Or.inr (Or.inr (List.mem_range'_1.mp hp).1))

theorem Arrivals.mem_queue {E R : List Nat} {n : Nat} (ha : Arrivals h t E R n) {p : Nat}
    (hp : p ∈ E ∨ p ∈ R ∨ p ∈ List.range' h.kernel.created n) : p ∈ t.readyQueue := by
  obtain ⟨rest, -, e⟩ := ha.queue
  rw [e, List.mem_append, List.mem_append, List.mem_append]
  rcases hp with hp | hp | hp
  · exact Or.inl (Or.inl (Or.inr hp))
  · exact Or.inl (Or.inr hp)
  · exact Or.inr hp

theorem woken_eq (hi : h.kernel.Inv) {E R : List Nat} {n : Nat} (ha : Arrivals h t E R n) :
    h.woken t = E := by
  apply mergeSort_eq_of_perm _ ha.sorted
  have hE : E.Nodup := ha.sorted.imp fun hlt e => absurd (e ▸ hlt) (Nat.lt_irrefl _)
  refine (List.perm_ext_iff_of_nodup (hi.placed.blocking_nodup.filter _) hE).mpr fun p => ?_
  rw [List.mem_filter]
  constructor
  · rintro ⟨hb, hr⟩
    have hlt : p < h.kernel.created := (hi.placed.mem_iff p).mpr (Or.inr (Or.inr hb))
    rcases ha.mem (of_decide_eq_true hr) with hp | hp | hp | hp
    · exact absurd hb (hi.placed.not_blocking_of_ready hp)
    · exact hp
    · rcases ha.running with e | e
      · exact absurd (e ▸ hp) List.not_mem_nil
      · exact absurd hb (hi.placed.not_blocking_of_running (e ▸ hp))
    · omega
  · intro hp
    exact ⟨ha.blocked p hp, decide_eq_true (ha.mem_queue (Or.inl hp))⟩

theorem preempted_eq (hi : h.kernel.Inv) {E R : List Nat} {n : Nat} (ha : Arrivals h t E R n) :
    h.kernel.runningQueue.filter (· ∈ t.readyQueue) = R := by
  rcases ha.running with e | e
  · rw [e, List.filter_eq_nil_iff]
    intro p hp hr
    have hlt : p < h.kernel.created := (hi.placed.mem_iff p).mpr (Or.inr (Or.inl hp))
    rcases ha.mem (of_decide_eq_true hr) with hp' | hp' | hp' | hp'
    · exact hi.placed.not_ready_of_running hp hp'
    · exact hi.placed.not_blocking_of_running hp (ha.blocked p hp')
    · exact absurd (e ▸ hp') List.not_mem_nil
    · omega
  · rw [e, List.filter_eq_self]
    intro p hp
    exact decide_eq_true (ha.mem_queue (Or.inr (Or.inl (e ▸ hp))))

theorem arriving_eq (hi : h.kernel.Inv) {E R : List Nat} {n : Nat} (ha : Arrivals h t E R n) :
    h.arriving t = E ++ R ++ List.range' h.kernel.created n := by
  have en : t.created - h.kernel.created = n := by
    rw [ha.created]
    omega
  rw [arriving, woken_eq hi ha, preempted_eq hi ha, en, List.filter_eq_self.mpr]
  intro p hp
  exact decide_eq_true (ha.mem_queue (Or.inr (Or.inr hp)))

theorem leaving_nil (hi : h.kernel.Inv) (hr : ∀ p ∈ t.runningQueue, p ∈ h.kernel.runningQueue) :
    leaving h.kernel t = [] := by
  rw [leaving, List.filter_eq_nil_iff]
  intro p hp hrun
  exact hi.placed.not_ready_of_running (hr p (of_decide_eq_true hrun)) hp

/-- a step after which no process runs that did not run before -/
theorem fifo_of_arrivals (hi : h.Inv) {E R : List Nat} {n : Nat} (ha : Arrivals h t E R n)
    (hq : t.readyQueue = h.kernel.readyQueue ++ E ++ R ++ List.range' h.kernel.created n)
    (hr : ∀ p ∈ t.runningQueue, p ∈ h.kernel.runningQueue) :
    (h.dispatched ++ leaving h.kernel t) ++ t.readyQueue = h.entered ++ h.arriving t := by
  rw [leaving_nil hi.kernel hr, arriving_eq hi.kernel ha, hq, ← hi.fifo]
  simp only [List.append_nil, List.append_assoc]

/-- a step to which only old processes are ready, and after which the same processes run -/
theorem fifo_of_same (hi : h.Inv) (hc : t.created = h.kernel.created)
    (hq : t.readyQueue = h.kernel.readyQueue)
    (hr : ∀ p ∈ t.runningQueue, p ∈ h.kernel.runningQueue) :
    (h.dispatched ++ leaving h.kernel t) ++ t.readyQueue = h.entered ++ h.arriving t := by
  have hq' : t.readyQueue = h.kernel.readyQueue ++ [] ++ [] ++ List.range' h.kernel.created 0 := by
    simpa using hq
  have ha : Arrivals h t [] [] 0 :=
    ⟨⟨_, fun _ hp => hp, hq'⟩, hc, fun _ hp => absurd hp List.not_mem_nil, List.Pairwise.nil, Or.inl rfl⟩
  exact fifo_of_arrivals hi ha hq' hr

/-! ## the order of the clocks -/

/-- who has a clock is blocked, so a call of `sleep` is not his -/
theorem sleptAt_clock (hi : h.Inv) (a : Action) {c : CountDownClock}
    (hc : c ∈ h.kernel.waitingSleepQueue) :
    (h.record a t).sleptAt c.process = h.sleptAt c.process := by
  refine if_neg fun hrun => ?_
  exact hi.kernel.placed.not_blocking_of_running hrun.2 (hi.kernel.clocks_blocked c hc)

theorem expiring_sorted (hi : h.Inv) :
    (Kernel.expiring h.kernel.waitingSleepQueue).Pairwise fun p q => h.sleptAt p < h.sleptAt q :=
  hi.clocks.sublist (Kernel.expiring_sublist _)

/-- a step that drops clocks at most -/
theorem inv_of_sublist (hi : h.Inv) (a : Action) (hk : t.Inv)
    (hfifo : (h.dispatched ++ leaving h.kernel t) ++ t.readyQueue = h.entered ++ h.arriving t)
    (hsub : (t.waitingSleepQueue.map CountDownClock.process).Sublist
      (h.kernel.waitingSleepQueue.map CountDownClock.process)) : (h.record a t).Inv where
  kernel := hk
  fifo := hfifo
  past := by
    intro c hc
    obtain ⟨d, hd, e⟩ := List.mem_map.mp (hsub.subset (List.mem_map_of_mem hc))
    rw [← e, sleptAt_clock hi a hd]
    exact Nat.lt_succ_of_lt (hi.past d hd)
  clocks := by
    refine List.Pairwise.imp_of_mem (fun {p q} hp hq hlt => ?_) (hi.clocks.sublist hsub)
    obtain ⟨c, hc, rfl⟩ := List.mem_map.mp (hsub.subset hp)
    obtain ⟨d, hd, rfl⟩ := List.mem_map.mp (hsub.subset hq)
    rw [sleptAt_clock hi a hc, sleptAt_clock hi a hd]
    exact hlt

/-- the clock of the process that calls `sleep` is the last one -/
theorem inv_of_sleep (hi : h.Inv) {a : Action} {p : Nat} {k : Int} (hk : t.Inv)
    (hfifo : (h.dispatched ++ leaving h.kernel t) ++ t.readyQueue = h.entered ++ h.arriving t)
    (ha : a.sleeps = true) (hp : p ∈ h.kernel.runningQueue)
    (hw : t.waitingSleepQueue = h.kernel.waitingSleepQueue ++ [⟨k, p⟩]) : (h.record a t).Inv := by
  have hnow : (h.record a t).sleptAt p = h.steps := if_pos ⟨ha, hp⟩
  refine ⟨hk, hfifo, fun c hc => ?_, ?_⟩
  · have hc : c ∈ t.waitingSleepQueue := hc
    rw [hw, List.mem_append, List.mem_singleton] at hc
    rcases hc with hc | rfl
    · rw [sleptAt_clock hi a hc]
      exact Nat.lt_succ_of_lt (hi.past c hc)
    · rw [hnow]
      exact Nat.lt_succ_self _
  · show (t.waitingSleepQueue.map CountDownClock.process).Pairwise _
    rw [hw, List.map_append, List.pairwise_append]
    refine ⟨?_, List.pairwise_singleton _ _, ?_⟩
    · refine List.Pairwise.imp_of_mem (fun {q r} hq hr hlt => ?_) hi.clocks
      obtain ⟨c, hc, rfl⟩ := List.mem_map.mp hq
      obtain ⟨d, hd, rfl⟩ := List.mem_map.mp hr
      rw [sleptAt_clock hi a hc, sleptAt_clock hi a hd]
      exact hlt
    · intro q hq r hr
      obtain ⟨c, hc, rfl⟩ := List.mem_map.mp hq
      have hr : r = p := List.mem_singleton.mp hr
      rw [hr, hnow, sleptAt_clock hi a hc]
      exact hi.past c hc

/-! ## steps and runs -/

theorem afterTick_clocks_sublist (s : Kernel) :
    (s.afterTick.waitingSleepQueue.map CountDownClock.process).Sublist
      (s.waitingSleepQueue.map CountDownClock.process) := by
  show List.Sublist (List.map _ (List.map _ _)) _
  rw [List.map_map]
  exact List.filter_sublist.map _

/-- the tick: the sleepers whose clocks run out, then `R` -/
theorem tick_arrivals (hi : h.Inv) {R : List Nat} (hc : t.created = h.kernel.created)
    (hq : t.readyQueue = h.kernel.afterTick.readyQueue ++ R) (hR : R = [] ∨ R = h.kernel.runningQueue) :
    Arrivals h t (Kernel.expiring h.kernel.waitingSleepQueue) R 0 where
  queue := ⟨h.kernel.readyQueue, fun _ hp => hp, by simpa [Kernel.afterTick, Kernel.wakeAll] using hq⟩
  created := hc
  blocked := by
    intro p hp
    obtain ⟨c, hc, rfl⟩ := List.mem_map.mp ((Kernel.expiring_sublist _).subset hp)
    exact hi.kernel.clocks_blocked c hc
  sorted := expiring_sorted hi
  running := hR

theorem inv_step {a : Action} {g : History} (hi : h.Inv) (hs : h.Step a g) : g.Inv := by
  obtain ⟨hs, e⟩ := hs
  have hk := Kernel.inv_step hi.kernel hs
  rw [e]
  generalize g.kernel = t at hs hk
  cases hs.outcome hi.kernel with
  | enqueued image P gdt =>
    refine inv_of_sublist hi _ hk ?_ (List.Sublist.refl _)
    have hq : (h.kernel.enqueued P gdt image.paging).readyQueue
        = h.kernel.readyQueue ++ [] ++ [] ++ List.range' h.kernel.created 1 := by
      simp [Kernel.enqueued]
    have ha : Arrivals h (h.kernel.enqueued P gdt image.paging) [] [] 1 :=
      ⟨⟨_, fun _ hp => hp, hq⟩, rfl, fun _ hp => absurd hp List.not_mem_nil, List.Pairwise.nil,
        Or.inl rfl⟩
    exact fifo_of_arrivals hi ha hq fun _ hp => hp
  | idle =>
    exact inv_of_sublist hi _ hk (fifo_of_same hi rfl rfl fun _ hp => hp) (List.Sublist.refl _)
  | dispatched kernel flags p ready hq hm =>
    refine inv_of_sublist hi _ hk ?_ (List.Sublist.refl _)
    have ha : Arrivals h (h.kernel.dispatched p ready kernel flags) [] [] 0 :=
      ⟨⟨ready, fun q hp => hq ▸ List.mem_cons_of_mem _ hp, by simp [Kernel.dispatched, switchToProcess,
        Kernel.setStatus, Kernel.modify]⟩, rfl, fun _ hp => absurd hp List.not_mem_nil, List.Pairwise.nil,
        Or.inl rfl⟩
    have hrun : (h.kernel.dispatched p ready kernel flags).runningQueue = [p] := by
      show h.kernel.runningQueue ++ [p] = [p]
      rw [(hi.kernel.kernel hm).2]
      rfl
    have hl : leaving h.kernel (h.kernel.dispatched p ready kernel flags) = [p] := by
      have hn := hi.kernel.placed.nodup
      rw [hq, List.cons_append, List.cons_append, List.nodup_cons] at hn
      rw [leaving, hrun, hq, List.filter_cons_of_pos (by simp), List.filter_eq_nil_iff.mpr]
      intro q hq' hmem
      have e : q = p := List.mem_singleton.mp (of_decide_eq_true hmem)
      exact hn.1 (e ▸ List.mem_append_left _ (List.mem_append_left _ hq'))
    rw [hl, arriving_eq hi.kernel ha, ← hi.fifo, hq]
    simp [Kernel.dispatched, switchToProcess, Kernel.setStatus, Kernel.modify]
  | ticked x hm =>
    have ha := tick_arrivals hi (t := { h.kernel.afterTick with cpu := trapret (x.frame 0x30) })
      rfl (List.append_nil _).symm (Or.inl rfl)
    refine inv_of_sublist hi _ hk (fifo_of_arrivals hi ha ?_ fun _ hp => hp) (afterTick_clocks_sublist _)
    simp [Kernel.afterTick, Kernel.wakeAll]
  | preempted x p hr =>
    have ha := tick_arrivals hi (t := h.kernel.afterTick.preempt p (x.frame 0x30)) rfl rfl (Or.inr hr.symm)
    refine inv_of_sublist hi _ hk (fifo_of_arrivals hi ha ?_ ?_) (afterTick_clocks_sublist _)
    · simp [Kernel.afterTick, Kernel.wakeAll, Kernel.preempt, Kernel.setStatus, Kernel.modify]
    · exact fun _ hp => List.mem_of_mem_erase hp
  | typed =>
    exact inv_of_sublist hi _ hk (fifo_of_same hi rfl rfl fun _ hp => hp) (List.Sublist.refl _)
  | answered x r p hint hm hon he hw hb =>
    refine inv_of_sublist hi _ hk ?_ (List.Sublist.refl _)
    have hq : ((h.kernel.typed r x).answer p).readyQueue
        = h.kernel.readyQueue ++ [p] ++ [] ++ List.range' h.kernel.created 0 := by
      simp [Kernel.typed, Kernel.answer, Kernel.wakeAll, Kernel.modify]
    have ha : Arrivals h ((h.kernel.typed r x).answer p) [p] [] 0 :=
      ⟨⟨_, fun _ hp => hp, hq⟩, rfl, fun q hp => List.mem_singleton.mp hp ▸ hb,
        List.pairwise_singleton _ _, Or.inl rfl⟩
    exact fifo_of_arrivals hi ha hq fun _ hp => hp
  | served =>
    exact inv_of_sublist hi _ hk (fifo_of_same hi rfl rfl fun _ hp => hp) (List.Sublist.refl _)
  | gets =>
    exact inv_of_sublist hi _ hk (fifo_of_same hi rfl rfl fun _ hp => List.mem_of_mem_erase hp)
      (List.Sublist.refl _)
  | sleep x p hr hu h5 =>
    refine inv_of_sleep hi hk (fifo_of_same hi rfl rfl fun _ hp => List.mem_of_mem_erase hp) ?_
      (hr ▸ List.mem_singleton_self p) rfl
    exact beq_iff_eq.mpr h5

end

theorem inv_run {b : BootState} {as : List Action} {h : History} (hrun : Path Step (boot b) as h) :
    h.Inv := hrun.inv (fun _ _ _ hi hs => inv_step hi hs) (inv_boot b)

/-- **In every run the processes dispatched, followed by `ready_queue`, are the processes that
entered `ready_queue`, in this order; and at a timer interrupt all sleepers whose last tick it is
enter in the order of their `sleep` calls, before the process that is preempted.** -/
theorem first_come_first_served (b : BootState) (as : List Action) (h : History)
    (hrun : Path Step (boot b) as h) :
    h.dispatched ++ h.kernel.readyQueue = h.entered ∧
    ∀ x g, h.Step (.timer x) g → ∃ sleepers preempted,
      g.entered = h.entered ++ sleepers ++ preempted ∧
      (∀ p, p ∈ sleepers ↔ ⟨1, p⟩ ∈ h.kernel.waitingSleepQueue) ∧
      sleepers.Pairwise (fun p q => h.sleptAt p < h.sleptAt q) ∧
      preempted = if h.kernel.UserMode then h.kernel.runningQueue else [] := by
  have hi := inv_run hrun
  have hmem : ∀ p, p ∈ Kernel.expiring h.kernel.waitingSleepQueue ↔
      ⟨1, p⟩ ∈ h.kernel.waitingSleepQueue := by
    intro p
    constructor
    · intro hp
      obtain ⟨c, hc, rfl⟩ := List.mem_map.mp hp
      obtain ⟨hc, h1⟩ := List.mem_filter.mp hc
      have h1 : c.countDown = 1 := of_decide_eq_true h1
      rw [← h1]
      exact hc
    · intro hp
      exact List.mem_map.mpr ⟨⟨1, p⟩, List.mem_filter.mpr ⟨hp, rfl⟩, rfl⟩
  refine ⟨hi.fifo, fun x g hs => ⟨_, _, ?_, hmem, expiring_sorted hi, rfl⟩⟩
  obtain ⟨hs, e⟩ := hs
  have hen := hs.1
  rw [e]
  generalize g.kernel = t at hs
  show h.entered ++ h.arriving t = _
  cases hs.outcome hi.kernel with
  | ticked _ hm =>
    have ha := tick_arrivals hi (t := { h.kernel.afterTick with cpu := trapret (x.frame 0x30) })
      rfl (List.append_nil _).symm (Or.inl rfl)
    rw [arriving_eq hi.kernel ha, if_neg hm]
    simp
  | preempted _ p hr hu =>
    have ha := tick_arrivals hi (t := h.kernel.afterTick.preempt p (x.frame 0x30)) rfl rfl (Or.inr hr.symm)
    rw [arriving_eq hi.kernel ha, if_pos (hen.mp hu), hr]
    simp

/-- the history after a step that does not halt -/
def next (h : History) (a : Action) : History := h.record a (h.kernel.next a)

theorem step_next {h : History} {a : Action} (hen : h.kernel.Enabled a)
    (hok : (h.kernel.step a).isOk = true) : h.Step a (h.next a) :=
  ⟨Kernel.step_next hen hok, rfl⟩

/-- two processes are created and the first one is dispatched -/
def twoCreated : History :=
  (((boot Kernel.smallMachine).next (.execv Kernel.smallImage)).next (.execv Kernel.smallImage)).next
    (.dispatch Kernel.ring0 0x202)

theorem first_come_first_served_two :
    twoCreated.dispatched = [0] ∧ twoCreated.kernel.readyQueue = [1] ∧ twoCreated.entered = [0, 1] := by
  have hrun : Path Step (boot Kernel.smallMachine) [.execv Kernel.smallImage, .execv Kernel.smallImage,
      .dispatch Kernel.ring0 0x202] twoCreated :=
    ⟨_, step_next trivial rfl, _, step_next trivial rfl, _, step_next (by decide) rfl, rfl⟩
  have hd : twoCreated.dispatched = [0] := by decide
  have hq : twoCreated.kernel.readyQueue = [1] := by decide
  have hfifo := (first_come_first_served Kernel.smallMachine _ twoCreated hrun).1
  rw [hd, hq] at hfifo
  exact ⟨hd, hq, hfifo.symm⟩

end History
end StarOS
