import StarOS.Lib.Run
import StarOS.Kernel.Outcome

/-!
# The queues hold every process once

* `Placed`       every process is in exactly one queue, which its status names;
* `Inv`          with what the steps need to keep it: a process with a clock, and the one that
                 waits for `gets`, is blocked; `Current_control_flow`, `CURRENT_PROCESS` and the ring
                 agree with `running_queue`;
* `inv_step`     every step keeps `Inv`, and `step_safe`: no step meets a missing element or an
                 empty queue;
* `queues_hold_each_once`   both for every run.
-/

namespace StarOS
open Lib

namespace Kernel

/-- every process created is in one queue, once, and has the status of that queue -/
structure Placed (s : Kernel) : Prop where
  perm : (s.readyQueue ++ s.runningQueue ++ s.blockingQueue).Perm (List.range s.created)
  ready : ∀ p ∈ s.readyQueue, (s.procs p).status = .ready
  running : ∀ p ∈ s.runningQueue, (s.procs p).status = .running
  blocking : ∀ p ∈ s.blockingQueue, (s.procs p).status = .blocking

structure Inv (s : Kernel) : Prop where
  placed : s.Placed
  clocks_nodup : (s.waitingSleepQueue.map CountDownClock.process).Nodup
  clocks_blocked : ∀ c ∈ s.waitingSleepQueue, c.process ∈ s.blockingQueue
  waiter : s.keyboard.gets.enabled = true → ∃ p, s.processWaitingGets = some p ∧
    p ∈ s.blockingQueue ∧ ∀ c ∈ s.waitingSleepQueue, c.process ≠ p
  idle : s.keyboard.gets.enabled = false → s.keyboard.gets.count = 0
  thread : (s.UserMode ∧ s.currentControlFlow = .processThread ∧
      ∃ p, s.runningQueue = [p] ∧ s.currentProcess = some p) ∨
    (¬ s.UserMode ∧ s.currentControlFlow = .kernelThread ∧ s.runningQueue = [])
  user_context : ∀ p < s.created, (s.procs p).context.user
  kernel_context : ¬ s.kernelProc.user
  no_return : s.returnToProcess = false

theorem inv_boot (b : BootState) : (boot b).Inv where
  placed := ⟨List.Perm.refl _, fun _ h => absurd h List.not_mem_nil,
    fun _ h => absurd h List.not_mem_nil, fun _ h => absurd h List.not_mem_nil⟩
  clocks_nodup := List.nodup_nil
  clocks_blocked := fun _ h => absurd h List.not_mem_nil
  waiter := fun h => absurd h Bool.false_ne_true
  idle := fun _ => rfl
  thread := Or.inr ⟨b.ring0, rfl, rfl⟩
  user_context := fun _ h => absurd h (Nat.not_lt_zero _)
  kernel_context := show ¬ Regs.zero.user by decide
  no_return := rfl

/-- nothing here is about `Count_down` -/
theorem Inv.countDown {s : Kernel} (hi : s.Inv) (n : Int) : { s with countDown := n }.Inv :=
  { hi with placed := ⟨hi.placed.perm, hi.placed.ready, hi.placed.running, hi.placed.blocking⟩ }

/-- the process that left the CPU, and the others -/
theorem offCpu_procs (s : Kernel) (p : Nat) (tf : TrapFrame) (status : ProcessStatus) (q : Nat) :
    ((s.offCpu p tf).setStatus p status).procs q = if q = p then { s.procs q with
      status := status, context := saveContextFromTrapframe (s.procs q).context tf } else s.procs q := by
  by_cases h : q = p <;> simp [offCpu, setStatus, h]

/-! ## where a process is -/

namespace Placed
variable {s : Kernel}

theorem nodup (h : s.Placed) : (s.readyQueue ++ s.runningQueue ++ s.blockingQueue).Nodup :=
  h.perm.nodup_iff.mpr List.nodup_range

theorem blocking_nodup (h : s.Placed) : s.blockingQueue.Nodup := (List.nodup_append.mp h.nodup).2.1

theorem mem_iff (h : s.Placed) (p : Nat) :
    p < s.created ↔ p ∈ s.readyQueue ∨ p ∈ s.runningQueue ∨ p ∈ s.blockingQueue := by
  rw [← List.mem_range, ← h.perm.mem_iff, List.mem_append, List.mem_append, or_assoc]

theorem ready_iff (h : s.Placed) {p : Nat} (hp : p < s.created) :
    p ∈ s.readyQueue ↔ (s.procs p).status = .ready := by
  refine ⟨h.ready p, fun hs => ?_⟩
  rcases (h.mem_iff p).mp hp with hr | hr | hr
  · exact hr
  · exact absurd (hs.symm.trans (h.running p hr)) (by decide)
  · exact absurd (hs.symm.trans (h.blocking p hr)) (by decide)

theorem running_iff (h : s.Placed) {p : Nat} (hp : p < s.created) :
    p ∈ s.runningQueue ↔ (s.procs p).status = .running := by
  refine ⟨h.running p, fun hs => ?_⟩
  rcases (h.mem_iff p).mp hp with hr | hr | hr
  · exact absurd (hs.symm.trans (h.ready p hr)) (by decide)
  · exact hr
  · exact absurd (hs.symm.trans (h.blocking p hr)) (by decide)

theorem blocking_iff (h : s.Placed) {p : Nat} (hp : p < s.created) :
    p ∈ s.blockingQueue ↔ (s.procs p).status = .blocking := by
  refine ⟨h.blocking p, fun hs => ?_⟩
  rcases (h.mem_iff p).mp hp with hr | hr | hr
  · exact absurd (hs.symm.trans (h.ready p hr)) (by decide)
  · exact absurd (hs.symm.trans (h.running p hr)) (by decide)
  · exact hr

/-- statuses differ, so queues do -/
theorem not_blocking_of_ready (h : s.Placed) {p : Nat} (hp : p ∈ s.readyQueue) :
    p ∉ s.blockingQueue := fun hb => absurd ((h.ready p hp).symm.trans (h.blocking p hb)) (by decide)

theorem not_blocking_of_running (h : s.Placed) {p : Nat} (hp : p ∈ s.runningQueue) :
    p ∉ s.blockingQueue := fun hb => absurd ((h.running p hp).symm.trans (h.blocking p hb)) (by decide)

theorem not_ready_of_running (h : s.Placed) {p : Nat} (hp : p ∈ s.runningQueue) :
    p ∉ s.readyQueue := fun hb => absurd ((h.running p hp).symm.trans (h.ready p hb)) (by decide)

/-! ## moves between the queues -/

theorem wakeAll (h : s.Placed) {l : List Nat} (hl : l.Nodup) (hb : ∀ p ∈ l, p ∈ s.blockingQueue) :
    (s.wakeAll l).Placed where
  perm := by
    have hsub : (l ++ s.blockingQueue.diff l).Perm s.blockingQueue :=
      List.subperm_append_diff_self_of_count_le fun x _ => (List.subperm_of_subset hl hb).count_le x
    have hmove : (s.readyQueue ++ l ++ s.runningQueue ++ s.blockingQueue.diff l).Perm
        (s.readyQueue ++ s.runningQueue ++ (l ++ s.blockingQueue.diff l)) := by
      simp only [List.append_assoc]
      refine List.Perm.append_left _ ?_
      rw [← List.append_assoc, ← List.append_assoc]
      exact List.perm_append_comm.append_right _
    exact (hmove.trans (hsub.append_left _)).trans h.perm
  ready := by
    intro p hp
    show (if p ∈ l then { s.procs p with status := .ready } else s.procs p).status = .ready
    split
    · rfl
    · rename_i hpl
      exact h.ready p ((List.mem_append.mp hp).resolve_right hpl)
  running := by
    intro p hp
    show (if p ∈ l then { s.procs p with status := .ready } else s.procs p).status = .running
    rw [if_neg fun hpl => h.not_blocking_of_running hp (hb p hpl)]
    exact h.running p hp
  blocking := by
    intro p hp
    obtain ⟨hpb, hpl⟩ := h.blocking_nodup.mem_sdiff_iff.mp hp
    show (if p ∈ l then { s.procs p with status := .ready } else s.procs p).status = .blocking
    rw [if_neg hpl]
    exact h.blocking p hpb

theorem preempt (h : s.Placed) {p : Nat} (hr : s.runningQueue = [p]) (tf : TrapFrame) :
    (s.preempt p tf).Placed where
  perm := by
    show (s.readyQueue ++ [p] ++ s.runningQueue.erase p ++ s.blockingQueue).Perm (List.range s.created)
    have hp := h.perm
    rw [hr] at hp ⊢
    rw [List.erase_cons_head, List.append_nil]
    exact hp
  ready := by
    intro q hq
    show (((s.offCpu p tf).setStatus p .ready).procs q).status = .ready
    rw [offCpu_procs]
    split
    · rfl
    · rename_i hne
      exact h.ready q ((List.mem_append.mp hq).resolve_right fun e => hne (List.mem_singleton.mp e))
  running := by
    intro q hq
    have hq : q ∈ s.runningQueue.erase p := hq
    rw [hr, List.erase_cons_head] at hq
    exact absurd hq List.not_mem_nil
  blocking := by
    intro q hq
    have hne : q ≠ p := fun e => h.not_blocking_of_running (hr ▸ List.mem_singleton_self p) (e ▸ hq)
    show (((s.offCpu p tf).setStatus p .ready).procs q).status = .blocking
    rw [offCpu_procs, if_neg hne]
    exact h.blocking q hq

theorem block (h : s.Placed) {p : Nat} (hr : s.runningQueue = [p]) (tf : TrapFrame) :
    (s.block p tf).Placed where
  perm := by
    show (s.readyQueue ++ s.runningQueue.erase p ++ (s.blockingQueue ++ [p])).Perm
      (List.range s.created)
    have hp := h.perm
    rw [hr] at hp ⊢
    rw [List.erase_cons_head, List.append_nil]
    rw [List.append_assoc] at hp
    exact (List.perm_append_comm.append_left _).trans hp
  ready := by
    intro q hq
    have hne : q ≠ p := fun e => h.not_ready_of_running (hr ▸ List.mem_singleton_self p) (e ▸ hq)
    show (((s.offCpu p tf).setStatus p .blocking).procs q).status = .ready
    rw [offCpu_procs, if_neg hne]
    exact h.ready q hq
  running := by
    intro q hq
    have hq : q ∈ s.runningQueue.erase p := hq
    rw [hr, List.erase_cons_head] at hq
    exact absurd hq List.not_mem_nil
  blocking := by
    intro q hq
    show (((s.offCpu p tf).setStatus p .blocking).procs q).status = .blocking
    rw [offCpu_procs]
    split
    · rfl
    · rename_i hne
      exact h.blocking q ((List.mem_append.mp hq).resolve_right fun e => hne (List.mem_singleton.mp e))

theorem dispatched (h : s.Placed) {p : Nat} {ready : List Nat} (hq : s.readyQueue = p :: ready)
    (kernel : Regs) (flags : UInt32) : (s.dispatched p ready kernel flags).Placed where
  perm := by
    have hp := h.perm
    rw [hq] at hp
    show (ready ++ (s.runningQueue ++ [p]) ++ s.blockingQueue).Perm (List.range s.created)
    have hmove : (ready ++ (s.runningQueue ++ [p])).Perm (p :: ready ++ s.runningQueue) := by
      rw [← List.append_assoc]
      exact List.perm_append_singleton p _
    exact (hmove.append_right _).trans hp
  ready := by
    intro q hr
    have hn := h.nodup
    rw [hq, List.cons_append, List.cons_append, List.nodup_cons] at hn
    have hne : q ≠ p := fun e => hn.1 (e ▸ List.mem_append_left _ (List.mem_append_left _ hr))
    show (if q = p then _ else s.procs q).status = .ready
    rw [if_neg hne]
    exact h.ready q (hq ▸ List.mem_cons_of_mem _ hr)
  running := by
    intro q hr
    show (if q = p then { s.procs q with status := .running } else s.procs q).status = .running
    split
    · rfl
    · rename_i hne
      exact h.running q ((List.mem_append.mp hr).resolve_right fun e => hne (List.mem_singleton.mp e))
  blocking := by
    intro q hb
    have hne : q ≠ p := fun e => h.not_blocking_of_ready (hq ▸ List.mem_cons_self) (e ▸ hb)
    show (if q = p then _ else s.procs q).status = .blocking
    rw [if_neg hne]
    exact h.blocking q hb

theorem enqueued (h : s.Placed) {P : Process} (hP : P.status = .ready) (gdt : List SegmentDescriptor)
    (paging : Paging) : (s.enqueued P gdt paging).Placed := by
  have hold : ∀ q, q ∈ s.readyQueue ∨ q ∈ s.runningQueue ∨ q ∈ s.blockingQueue →
      (s.enqueued P gdt paging).procs q = s.procs q := by
    intro q hq
    have hlt := (h.mem_iff q).mpr hq
    exact if_neg (Nat.ne_of_lt hlt)
  refine ⟨?_, ?_, ?_, ?_⟩
  · show (s.readyQueue ++ [s.created] ++ s.runningQueue ++ s.blockingQueue).Perm
      (List.range (s.created + 1))
    have hmove : (s.readyQueue ++ [s.created] ++ s.runningQueue ++ s.blockingQueue).Perm
        (s.readyQueue ++ s.runningQueue ++ s.blockingQueue ++ [s.created]) := by
      simp only [List.append_assoc]
      refine List.Perm.append_left _ ?_
      rw [← List.append_assoc s.runningQueue]
      exact List.perm_append_comm
    rw [List.range_succ]
    exact hmove.trans (h.perm.append_right _)
  · intro q hq
    rcases List.mem_append.mp hq with hq | hq
    · rw [hold q (Or.inl hq)]
      exact h.ready q hq
    · have hq : q = s.created := List.mem_singleton.mp hq
      show (if q = s.created then P else s.procs q).status = .ready
      rw [if_pos hq, hP]
  · intro q hq
    rw [hold q (Or.inr (Or.inl hq))]
    exact h.running q hq
  · intro q hq
    rw [hold q (Or.inr (Or.inr hq))]
    exact h.blocking q hq

end Placed

/-! ## the invariant, outcome by outcome -/

section
variable {s : Kernel}

theorem Inv.user (hi : s.Inv) (hu : s.UserMode) :
    s.currentControlFlow = .processThread ∧ ∃ p, s.runningQueue = [p] ∧ s.currentProcess = some p := by
  rcases hi.thread with ⟨-, h⟩ | ⟨hn, -⟩
  · exact h
  · exact absurd hu hn

theorem Inv.kernel (hi : s.Inv) (hu : ¬ s.UserMode) :
    s.currentControlFlow = .kernelThread ∧ s.runningQueue = [] := by
  rcases hi.thread with ⟨h, -⟩ | ⟨-, h⟩
  · exact absurd h hu
  · exact h

theorem Inv.paging (hi : s.Inv) (paging : Paging) : { s with paging := paging }.Inv :=
  { hi with placed := ⟨hi.placed.perm, hi.placed.ready, hi.placed.running, hi.placed.blocking⟩ }

theorem expiring_sublist (clocks : List CountDownClock) :
    (expiring clocks).Sublist (clocks.map CountDownClock.process) := List.filter_sublist.map _

/-- a clock that goes on belongs to a process that is not woken -/
theorem not_mem_expiring {clocks : List CountDownClock}
    (hn : (clocks.map CountDownClock.process).Nodup) {c : CountDownClock} (hc : c ∈ clocks)
    (h1 : c.countDown ≠ 1) : c.process ∉ expiring clocks := by
  intro h
  obtain ⟨d, hd, he⟩ := List.mem_map.mp h
  obtain ⟨hd, hd1⟩ := List.mem_filter.mp hd
  have e : d = c := List.inj_on_of_nodup_map hn hd hc he
  rw [e] at hd1
  exact h1 (of_decide_eq_true hd1)

theorem wakeAll_context (s : Kernel) (l : List Nat) (p : Nat) :
    ((s.wakeAll l).procs p).context = (s.procs p).context := by
  show (if p ∈ l then { s.procs p with status := .ready } else s.procs p).context = _
  split <;> rfl

theorem inv_afterTick (hi : s.Inv) : s.afterTick.Inv := by
  have hsub := expiring_sublist s.waitingSleepQueue
  have hmem : ∀ p ∈ expiring s.waitingSleepQueue, p ∈ s.blockingQueue := by
    intro p hp
    obtain ⟨c, hc, rfl⟩ := List.mem_map.mp (hsub.subset hp)
    exact hi.clocks_blocked c hc
  have hdiff : ∀ p, p ∈ s.blockingQueue → p ∉ expiring s.waitingSleepQueue →
      p ∈ s.afterTick.blockingQueue := fun p h1 h2 =>
    hi.placed.blocking_nodup.mem_sdiff_iff.mpr ⟨h1, h2⟩
  -- the clocks that are left, with the clock each of them was
  have hleft : ∀ d ∈ s.afterTick.waitingSleepQueue, ∃ c ∈ s.waitingSleepQueue,
      c.countDown > 1 ∧ d.process = c.process := by
    intro d hd
    obtain ⟨c, hc, rfl⟩ := List.mem_map.mp hd
    obtain ⟨hc, h1⟩ := List.mem_filter.mp hc
    exact ⟨c, hc, of_decide_eq_true h1, rfl⟩
  exact {
    hi with
    placed := by
      have hp := hi.placed.wakeAll (hi.clocks_nodup.sublist hsub) hmem
      exact ⟨hp.perm, hp.ready, hp.running, hp.blocking⟩
    clocks_nodup := by
      have e : s.afterTick.waitingSleepQueue.map CountDownClock.process
          = (s.waitingSleepQueue.filter fun c => c.countDown > 1).map CountDownClock.process := by
        show List.map _ (List.map _ _) = _
        rw [List.map_map]
        rfl
      rw [e]
      exact hi.clocks_nodup.sublist (List.filter_sublist.map _)
    clocks_blocked := by
      intro d hd
      obtain ⟨c, hc, h1, e⟩ := hleft d hd
      rw [e]
      exact hdiff _ (hi.clocks_blocked c hc) (not_mem_expiring hi.clocks_nodup hc (by omega))
    waiter := by
      intro he
      obtain ⟨p, hw, hb, hn⟩ := hi.waiter he
      refine ⟨p, hw, hdiff p hb fun h => ?_, fun d hd => ?_⟩
      · obtain ⟨c, hc, e⟩ := List.mem_map.mp (hsub.subset h)
        exact hn c hc e
      · obtain ⟨c, hc, -, e⟩ := hleft d hd
        rw [e]
        exact hn c hc
    user_context := by
      intro p hp
      show ((s.wakeAll _).procs p).context.user
      rw [wakeAll_context]
      exact hi.user_context p hp }

/-- what is left of the invariant once the running process is off the CPU -/
theorem inv_offCpu_context (hi : s.Inv) {p : Nat} {tf : TrapFrame} (hcs : tf.oldCs &&& 3 = 3)
    (status : ProcessStatus) : ∀ q < s.created,
      (((s.offCpu p tf).setStatus p status).procs q).context.user := by
  intro q hq
  rw [offCpu_procs]
  split
  · exact hcs
  · exact hi.user_context q hq

theorem inv_preempt (hi : s.Inv) {p : Nat} (hr : s.runningQueue = [p]) {tf : TrapFrame}
    (hcs : tf.oldCs &&& 3 = 3) : (s.preempt p tf).Inv := by
  have he : s.runningQueue.erase p = [] := by rw [hr, List.erase_cons_head]
  exact {
    hi with
    placed := hi.placed.preempt hr tf
    thread := Or.inr ⟨hi.kernel_context, rfl, he⟩
    user_context := inv_offCpu_context hi hcs .ready }

/-- `block` leaves the process in `blocking_queue` without a clock and without a `gets` -/
theorem inv_block (hi : s.Inv) {p : Nat} (hr : s.runningQueue = [p]) (tf : TrapFrame)
    (hcs : tf.oldCs &&& 3 = 3) : (s.block p tf).Inv ∧ (∀ c ∈ s.waitingSleepQueue, c.process ≠ p) ∧
      ∀ q, s.keyboard.gets.enabled = true → s.processWaitingGets = some q → q ≠ p := by
  have he : s.runningQueue.erase p = [] := by rw [hr, List.erase_cons_head]
  have hnb : p ∉ s.blockingQueue :=
    hi.placed.not_blocking_of_running (hr ▸ List.mem_singleton_self p)
  refine ⟨{
    hi with
    placed := hi.placed.block hr tf
    clocks_blocked := fun c hc => List.mem_append_left _ (hi.clocks_blocked c hc)
    waiter := fun h => ?_
    thread := Or.inr ⟨hi.kernel_context, rfl, he⟩
    user_context := inv_offCpu_context hi hcs .blocking }, ?_, ?_⟩
  · obtain ⟨q, hw, hb, hn⟩ := hi.waiter h
    exact ⟨q, hw, List.mem_append_left _ hb, hn⟩
  · intro c hc e
    exact hnb (e ▸ hi.clocks_blocked c hc)
  · intro q hen hw e
    obtain ⟨q', hw', hb, -⟩ := hi.waiter hen
    have e' : q' = q := Option.some.inj (hw'.symm.trans hw)
    exact hnb (e ▸ e' ▸ hb)

theorem inv_getsCalled (hi : s.Inv) {p : Nat} (hr : s.runningQueue = [p]) {t : Trap}
    (hu : t.regs.user) : (s.getsCalled p t).Inv := by
  obtain ⟨hb, hc, -⟩ := inv_block hi hr (t.frame 32) hu
  exact {
    hb with
    placed := ⟨hb.placed.perm, hb.placed.ready, hb.placed.running, hb.placed.blocking⟩
    waiter := fun _ => ⟨p, rfl, List.mem_append_right _ (List.mem_singleton_self p), hc⟩
    idle := fun h => by cases h }

theorem inv_sleepCalled (hi : s.Inv) {p : Nat} (hr : s.runningQueue = [p]) {t : Trap}
    (hu : t.regs.user) : (s.sleepCalled p t).Inv := by
  obtain ⟨hb, hc, hg⟩ := inv_block hi hr (t.frame 32) hu
  exact {
    hb with
    placed := ⟨hb.placed.perm, hb.placed.ready, hb.placed.running, hb.placed.blocking⟩
    clocks_nodup := by
      show (List.map _ (s.waitingSleepQueue ++ [_])).Nodup
      rw [List.map_append, List.map_singleton]
      refine List.nodup_append.mpr ⟨hi.clocks_nodup, List.nodup_singleton _, ?_⟩
      intro a ha b hb e
      obtain ⟨c, hc', rfl⟩ := List.mem_map.mp ha
      exact hc c hc' (e.trans (List.mem_singleton.mp hb))
    clocks_blocked := by
      intro c hc'
      rcases List.mem_append.mp hc' with hc' | hc'
      · exact List.mem_append_left _ (hi.clocks_blocked c hc')
      · rw [List.mem_singleton.mp hc']
        exact List.mem_append_right _ (List.mem_singleton_self p)
    waiter := by
      intro h
      obtain ⟨q, hw, hbq, hn⟩ := hb.waiter h
      refine ⟨q, hw, hbq, fun c hc' => ?_⟩
      rcases List.mem_append.mp hc' with hc' | hc'
      · exact hn c hc'
      · rw [List.mem_singleton.mp hc']
        exact (hg q h hw).symm }

theorem inv_dispatched (hi : s.Inv) {p : Nat} {ready : List Nat} (hq : s.readyQueue = p :: ready)
    (hk : ¬ s.UserMode) {kernel : Regs} (hkr : ¬ kernel.user) (flags : UInt32) :
    (s.dispatched p ready kernel flags).Inv := by
  have hp : p < s.created := (hi.placed.mem_iff p).mpr (Or.inl (hq ▸ List.mem_cons_self))
  have hctx : ∀ q, ((s.dispatched p ready kernel flags).procs q).context = (s.procs q).context := by
    intro q
    show (if q = p then { s.procs q with status := .running } else s.procs q).context = _
    split <;> rfl
  exact {
    hi with
    placed := hi.placed.dispatched hq kernel flags
    thread := by
      refine Or.inl ⟨?_, rfl, p, ?_, rfl⟩
      · show ((s.dispatched p ready kernel flags).procs p).context.user
        rw [hctx]
        exact hi.user_context p hp
      · show s.runningQueue ++ [p] = [p]
        rw [(hi.kernel hk).2]
        rfl
    user_context := by
      intro q hq
      rw [hctx]
      exact hi.user_context q hq
    kernel_context := hkr }

theorem inv_enqueued (hi : s.Inv) {P : Process} (hP : P.status = .ready) (hu : P.context.user)
    (gdt : List SegmentDescriptor) (paging : Paging) : (s.enqueued P gdt paging).Inv :=
  { hi with
    placed := hi.placed.enqueued hP gdt paging
    user_context := by
      intro q hq
      show (if q = s.created then P else s.procs q).context.user
      split
      · exact hu
      · rename_i hne
        exact hi.user_context q (Nat.lt_of_le_of_ne (Nat.lt_succ_iff.mp hq) hne) }

/-- the keyboard interrupt returns to where it came from -/
theorem inv_typed (hi : s.Inv) {t : Trap} {r : Response}
    (h : ps2KeyboardInterrupt s.keyboard t.data = .ok r) (hm : t.regs.user ↔ s.UserMode)
    (hg : r.keyboard.gets.enabled = true ∨ r.keyboard.gets.count = 0) : (s.typed r t).Inv := by
  obtain ⟨-, -, hen⟩ := interrupt_gets h
  exact {
    hi with
    placed := ⟨hi.placed.perm, hi.placed.ready, hi.placed.running, hi.placed.blocking⟩
    waiter := by
      intro he
      apply hi.waiter
      by_contra hf
      have hf := hen (Bool.eq_false_iff.mpr hf)
      exact absurd (hf.symm.trans he) Bool.false_ne_true
    idle := by
      intro hf
      refine hg.resolve_left fun he => ?_
      exact absurd (hf.symm.trans he) Bool.false_ne_true
    thread := by
      rcases hi.thread with ⟨hu, hrest⟩ | ⟨hu, hrest⟩
      · exact Or.inl ⟨hm.mpr hu, hrest⟩
      · exact Or.inr ⟨fun h => hu (hm.mp h), hrest⟩ }

theorem inv_answer (hi : s.Inv) {t : Trap} {r : Response} {p : Nat}
    (hm : t.regs.user ↔ s.UserMode) (he : r.keyboard.gets.enabled = false)
    (hp : p ∈ s.blockingQueue) (hc : ∀ c ∈ s.waitingSleepQueue, c.process ≠ p) :
    ((s.typed r t).answer p).Inv := by
  let f : Process → Process := fun P =>
    { P with context := { P.context with eax := r.keyboard.gets.buffer } }
  have hstatus : ∀ q, (((s.typed r t).modify p f).procs q).status = (s.procs q).status := by
    intro q
    show (if q = p then f (s.procs q) else s.procs q).status = _
    split <;> rfl
  have hu : ∀ q, (s.procs q).context.user → (((s.typed r t).modify p f).procs q).context.user := by
    intro q hq
    show (if q = p then f (s.procs q) else s.procs q).context.user
    split <;> exact hq
  have hplaced : ((s.typed r t).modify p f).Placed :=
    ⟨hi.placed.perm, fun q h => (hstatus q).trans (hi.placed.ready q h),
      fun q h => (hstatus q).trans (hi.placed.running q h),
      fun q h => (hstatus q).trans (hi.placed.blocking q h)⟩
  have hwoken := hplaced.wakeAll (List.nodup_singleton p) fun q hq => List.mem_singleton.mp hq ▸ hp
  exact {
    hi with
    placed := ⟨hwoken.perm, hwoken.ready, hwoken.running, hwoken.blocking⟩
    clocks_blocked := by
      intro c hc'
      refine hi.placed.blocking_nodup.mem_sdiff_iff.mpr ⟨hi.clocks_blocked c hc', fun h => ?_⟩
      exact hc c hc' (List.mem_singleton.mp h)
    waiter := fun h => absurd (he.symm.trans h) Bool.false_ne_true
    idle := fun _ => rfl
    thread := by
      rcases hi.thread with ⟨hu, hrest⟩ | ⟨hu, hrest⟩
      · exact Or.inl ⟨hm.mpr hu, hrest⟩
      · exact Or.inr ⟨fun h => hu (hm.mp h), hrest⟩
    user_context := by
      intro q hq
      show ((((s.typed r t).modify p f).wakeAll [p]).procs q).context.user
      rw [wakeAll_context]
      exact hu q (hi.user_context q hq) }

end

/-! ## steps -/

/-- what a step can do in a state that satisfies the invariant -/
inductive Outcome (s : Kernel) : Action → Kernel → Prop
  | enqueued (image : Image) (P : Process) (gdt : List SegmentDescriptor)
      (ready : P.status = .ready) (user : P.context.user) :
      Outcome s (.execv image) (s.enqueued P gdt image.paging)
  | idle (kernel : Regs) (flags : UInt32) : Outcome s (.dispatch kernel flags) s
  | dispatched (kernel : Regs) (flags : UInt32) (p : Nat) (ready : List Nat)
      (queue : s.readyQueue = p :: ready) (mode : ¬ s.UserMode) (ring0 : ¬ kernel.user) :
      Outcome s (.dispatch kernel flags) (s.dispatched p ready kernel flags)
  | ticked (t : Trap) (mode : ¬ s.UserMode) (ring0 : ¬ t.regs.user) :
      Outcome s (.timer t) { s.afterTick with cpu := trapret (t.frame 0x30) }
  | preempted (t : Trap) (p : Nat) (running : s.runningQueue = [p]) (user : t.regs.user) :
      Outcome s (.timer t) (s.afterTick.preempt p (t.frame 0x30))
  | typed (t : Trap) (r : Response) (interrupt : ps2KeyboardInterrupt s.keyboard t.data = .ok r)
      (mode : t.regs.user ↔ s.UserMode)
      (pending : r.keyboard.gets.enabled = true ∨ r.keyboard.gets.count = 0) :
      Outcome s (.keyboard t) (s.typed r t)
  | answered (t : Trap) (r : Response) (p : Nat)
      (interrupt : ps2KeyboardInterrupt s.keyboard t.data = .ok r) (mode : t.regs.user ↔ s.UserMode)
      (enabled : s.keyboard.gets.enabled = true) (done : r.keyboard.gets.enabled = false)
      (waiter : s.processWaitingGets = some p) (blocked : p ∈ s.blockingQueue)
      (awake : ∀ c ∈ s.waitingSleepQueue, c.process ≠ p) :
      Outcome s (.keyboard t) ((s.typed r t).answer p)
  | served (t : Trap) (paging : Paging) (eax : UInt32) (user : t.regs.user) (mode : s.UserMode)
      (other : t.regs.eax ≠ 4 ∧ t.regs.eax ≠ 5) :
      Outcome s (.syscall t) { s with
        paging := paging, cpu := trapret { t.frame 32 with eax := eax } }
  | gets (t : Trap) (p : Nat) (paging : Paging) (running : s.runningQueue = [p])
      (user : t.regs.user) (eax : t.regs.eax = 4) :
      Outcome s (.syscall t) ({ s with paging := paging }.getsCalled p t)
  | sleep (t : Trap) (p : Nat) (running : s.runningQueue = [p]) (user : t.regs.user)
      (eax : t.regs.eax = 5) :
      Outcome s (.syscall t) (s.sleepCalled p t)

/-- the halts of a step: none of them is that of `remove` or `pop_front` -/
def Halts (s : Kernel) (a : Action) : Prop :=
  ∃ e, s.step a = .error e ∧ e ≠ .elemNotFound ∧ e ≠ .emptyQueueToPop

section
variable {s : Kernel}

theorem execv_outcome (s : Kernel) (image : Image) :
    (∃ t, s.step (.execv image) = .ok t ∧ Outcome s (.execv image) t) ∨ s.Halts (.execv image) := by
  rcases execv_cases s image with ⟨n, h⟩ | ⟨P, gdt, hP, hu, h⟩
  · exact Or.inr ⟨_, h, by simp, by simp⟩
  · exact Or.inl ⟨_, h, .enqueued image P gdt hP hu⟩

theorem dispatch_outcome {kernel : Regs} {flags : UInt32} (hen : s.Enabled (.dispatch kernel flags)) :
    ∃ t, s.step (.dispatch kernel flags) = .ok t ∧ Outcome s (.dispatch kernel flags) t := by
  cases hq : s.readyQueue with
  | nil => exact ⟨s, schedular_nil kernel flags hq, .idle kernel flags⟩
  | cons p ready =>
    exact ⟨_, schedular_cons kernel flags hq, .dispatched kernel flags p ready hq hen.1 hen.2⟩

theorem timer_outcome (hi : s.Inv) {t : Trap} (hen : s.Enabled (.timer t)) :
    ∃ u, s.step (.timer t) = .ok u ∧ Outcome s (.timer t) u := by
  have ht := tick_eq hi.clocks_nodup hi.clocks_blocked
  by_cases hu : s.UserMode
  · obtain ⟨hc, p, hr, hp⟩ := hi.user hu
    have hm : p ∈ s.runningQueue := hr ▸ List.mem_singleton_self p
    exact ⟨_, timer_user t ht hc hi.no_return hp hm, .preempted t p hr (hen.mpr hu)⟩
  · obtain ⟨hc, -⟩ := hi.kernel hu
    have hc' : s.currentControlFlow ≠ .processThread := by
      rw [hc]
      decide
    exact ⟨_, timer_kernel t ht hc' hi.no_return, .ticked t hu fun h => hu (hen.mp h)⟩

/-- a keyboard interrupt that decodes its byte returns -/
theorem keyboard_ok (hi : s.Inv) {x : Trap} (hen : s.Enabled (.keyboard x)) {r : Response}
    (h : ps2KeyboardInterrupt s.keyboard x.data = .ok r) :
    ∃ u, s.step (.keyboard x) = .ok u ∧ Outcome s (.keyboard x) u := by
  obtain ⟨hcount, -, hoff⟩ := interrupt_gets h
  by_cases hg : r.keyboard.gets.enabled = true ∨ r.keyboard.gets.count = 0
  · exact ⟨_, keyboard_typed h hi.no_return hg, .typed x r h hen hg⟩
  · obtain ⟨he, hn⟩ := not_or.mp hg
    have he := Bool.eq_false_iff.mpr he
    -- a request that counts characters is an enabled one
    have hon : s.keyboard.gets.enabled = true := by
      by_contra hf
      exact hn (hcount.trans (hi.idle (Bool.eq_false_iff.mpr hf)))
    obtain ⟨p, hw, hb, hc⟩ := hi.waiter hon
    exact ⟨_, keyboard_answer h hi.no_return he hn hw hb, .answered x r p h hen hon he hw hb hc⟩

theorem keyboard_outcome (hi : s.Inv) {t : Trap} (hen : s.Enabled (.keyboard t)) :
    (∃ u, s.step (.keyboard t) = .ok u ∧ Outcome s (.keyboard t) u) ∨ s.Halts (.keyboard t) := by
  cases h : ps2KeyboardInterrupt s.keyboard t.data with
  | error e =>
    right
    refine ⟨e, trap_keyboard_error h, ?_⟩
    rcases interrupt_error h with ⟨l, rfl⟩ | ⟨w, l, rfl⟩ <;> simp
  | ok r => exact .inl (keyboard_ok hi hen h)

theorem syscall_outcome (hi : s.Inv) {t : Trap} (hen : s.Enabled (.syscall t)) :
    (∃ u, s.step (.syscall t) = .ok u ∧ Outcome s (.syscall t) u) ∨ s.Halts (.syscall t) := by
  obtain ⟨hu, hs⟩ := hen
  obtain ⟨hc, p, hr, hp⟩ := hi.user hs
  have hm : p ∈ s.runningQueue := hr ▸ List.mem_singleton_self p
  by_cases h4 : t.regs.eax = 4
  · rcases gets_eq hc hp hm h4 with h | h
    · exact Or.inl ⟨_, h, .gets t p _ hr hu h4⟩
    · exact Or.inr ⟨_, h, by simp, by simp⟩
  · by_cases h5 : t.regs.eax = 5
    · exact Or.inl ⟨_, sleep_eq hc hp hm h5, .sleep t p hr hu h5⟩
    · rcases syscall_other hp h4 h5 with ⟨eax, h⟩ | ⟨n, h⟩ | h
      · exact Or.inl ⟨_, h, .served t _ eax hu hs ⟨h4, h5⟩⟩
      · exact Or.inr ⟨_, h, by simp, by simp⟩
      · exact Or.inr ⟨_, h, by simp, by simp⟩

theorem step_outcome (hi : s.Inv) {a : Action} (hen : s.Enabled a) :
    (∃ t, s.step a = .ok t ∧ Outcome s a t) ∨ s.Halts a := by
  cases a with
  | execv image => exact execv_outcome s image
  | dispatch kernel flags => exact Or.inl (dispatch_outcome hen)
  | timer t => exact Or.inl (timer_outcome hi hen)
  | keyboard t => exact keyboard_outcome hi hen
  | syscall t => exact syscall_outcome hi hen

/-- the inversion of a step -/
theorem Step.outcome {a : Action} {t : Kernel} (hs : s.Step a t) (hi : s.Inv) : Outcome s a t := by
  rcases step_outcome hi hs.1 with ⟨u, hu, ho⟩ | ⟨e, he, -⟩
  · have e : u = t := Except.ok.inj (hu.symm.trans hs.2)
    exact e ▸ ho
  · exact absurd (he.symm.trans hs.2) (by simp)

/-- `sleep`, called by the process that runs -/
theorem Step.sleep {t : Kernel} {p : Nat} {x : Trap} (hs : s.Step (.syscall x) t) (hi : s.Inv)
    (hp : s.runningQueue = [p]) (h5 : x.regs.eax = 5) : t = s.sleepCalled p x := by
  cases hs.outcome hi with
  | served _ _ _ _ _ ho => exact absurd h5 ho.2
  | gets _ q _ hq hu h4 => exact absurd (h4.symm.trans h5) (by decide)
  | sleep _ q hq =>
    have e : q = p := List.singleton_inj.mp (hq.symm.trans hp)
    rw [e]

/-- `gets`, called by the process that runs -/
theorem Step.gets {t : Kernel} {p : Nat} {x : Trap} (hs : s.Step (.syscall x) t) (hi : s.Inv)
    (hp : s.runningQueue = [p]) (h4 : x.regs.eax = 4) :
    ∃ pg, t = { s with paging := pg }.getsCalled p x := by
  cases hs.outcome hi with
  | served _ _ _ _ _ ho => exact absurd h4 ho.1
  | sleep _ q hq hu h5 => exact absurd (h4.symm.trans h5) (by decide)
  | gets _ q pg hq =>
    have e : q = p := List.singleton_inj.mp (hq.symm.trans hp)
    exact ⟨pg, by rw [e]⟩

theorem Outcome.inv {a : Action} {t : Kernel} (ho : Outcome s a t) (hi : s.Inv) : t.Inv := by
  cases ho with
  | enqueued image P gdt hP hu => exact inv_enqueued hi hP hu gdt image.paging
  | idle => exact hi
  | dispatched kernel flags p ready hq hm hk => exact inv_dispatched hi hq hm hk flags
  | ticked t hm hr =>
    have ha := inv_afterTick hi
    exact { ha with
      placed := ⟨ha.placed.perm, ha.placed.ready, ha.placed.running, ha.placed.blocking⟩
      thread := Or.inr ⟨hr, hi.kernel hm⟩ }
  | preempted t p hr hu => exact inv_preempt (inv_afterTick hi) hr hu
  | typed t r h hm hg => exact inv_typed hi h hm hg
  | answered t r p h hm hon he hw hb hc => exact inv_answer hi hm he hb hc
  | served t pg eax hu hm =>
    exact { hi with
      placed := ⟨hi.placed.perm, hi.placed.ready, hi.placed.running, hi.placed.blocking⟩
      thread := Or.inl ⟨hu, hi.user hm⟩ }
  | gets t p pg hr hu =>
    exact inv_getsCalled (hi.paging pg) hr hu
  | sleep t p hr hu => exact inv_sleepCalled hi hr hu

theorem inv_step {a : Action} {t : Kernel} (hi : s.Inv) (hs : s.Step a t) : t.Inv :=
  (hs.outcome hi).inv hi

end

theorem inv_run {b : BootState} {as : List Action} {s : Kernel} (h : Path Step (boot b) as s) :
    s.Inv := h.inv (fun _ _ _ hi hs => inv_step hi hs) (inv_boot b)

/-- **In every state of every run each process is in exactly one queue, once, and its status names
the queue; at most one process runs; and no step the CPU can take next halts in `remove` or
`pop_front`.** -/
theorem queues_hold_each_once (b : BootState) (as : List Action) (s : Kernel)
    (h : Path Step (boot b) as s) :
    (∀ p < s.created,
      s.readyQueue.count p + s.runningQueue.count p + s.blockingQueue.count p = 1 ∧
      (p ∈ s.readyQueue ↔ (s.procs p).status = .ready) ∧
      (p ∈ s.runningQueue ↔ (s.procs p).status = .running) ∧
      (p ∈ s.blockingQueue ↔ (s.procs p).status = .blocking)) ∧
    s.runningQueue.length ≤ 1 ∧
    ∀ a, s.Enabled a → s.step a ≠ .error .elemNotFound ∧ s.step a ≠ .error .emptyQueueToPop := by
  have hi := inv_run h
  refine ⟨fun p hp => ⟨?_, hi.placed.ready_iff hp, hi.placed.running_iff hp,
    hi.placed.blocking_iff hp⟩, ?_, fun a hen => ?_⟩
  · have hc := hi.placed.perm.count_eq p
    rw [List.count_append, List.count_append] at hc
    rw [hc]
    exact List.count_eq_one_of_mem List.nodup_range (List.mem_range.mpr hp)
  · rcases hi.thread with ⟨-, -, p, hr, -⟩ | ⟨-, -, hr⟩ <;> simp [hr]
  · rcases step_outcome hi hen with ⟨t, ht, -⟩ | ⟨e, he, h1, h2⟩
    · rw [ht]
      exact ⟨by simp, by simp⟩
    · rw [he]
      exact ⟨fun h => h1 (Except.error.inj h), fun h => h2 (Except.error.inj h)⟩

/-! ## a small run -/

/-- the state after a step that does not halt -/
def next (s : Kernel) (a : Action) : Kernel :=
  match s.step a with
  | .ok t => t
  | .error _ => s

theorem step_next {s : Kernel} {a : Action} (hen : s.Enabled a) (hok : (s.step a).isOk = true) :
    s.Step a (s.next a) := by
  refine ⟨hen, ?_⟩
  rw [next]
  revert hok
  cases s.step a with
  | ok t => exact fun _ => rfl
  | error e => exact fun h => by cases h

/-- a machine whose kernel runs on selector 8, with empty page tables -/
def smallMachine : BootState where
  paging := ⟨fun _ => 0, 0x78405000⟩
  kernelPagingDirectory := 0x78405000
  tss := 0x59005000
  kernelStackEnd := 0x52d00000
  cpu := { Regs.zero with cs := 8 }
  ring0 := by decide

def smallImage : Image := ⟨0x59005070, 0x78406000, 0x08048000, ⟨fun _ => 0, 0x78407000⟩⟩

def ring0 : Regs := { Regs.zero with cs := 8 }

def ring3 : Regs := { Regs.zero with cs := 0x23 }

/-- an interrupt that finds the registers `r` -/
def trapOf (r : Regs) (data : UInt8) : Trap := ⟨r, 0, 0, (0, 0), data, 0⟩

/-- a process is created and dispatched -/
def oneRuns : Kernel := ((boot smallMachine).next (.execv smallImage)).next (.dispatch ring0 0x202)

theorem oneRuns_run :
    Path Step (boot smallMachine) [.execv smallImage, .dispatch ring0 0x202] oneRuns :=
  ⟨_, step_next trivial rfl, _, step_next (by decide) rfl, rfl⟩

/-- and then preempted -/
theorem queues_hold_each_once_one :
    let s := oneRuns.next (.timer (trapOf ring3 0))
    s.readyQueue.count 0 + s.runningQueue.count 0 + s.blockingQueue.count 0 = 1 := by
  intro s
  have h : Path Step (boot smallMachine) ([.execv smallImage, .dispatch ring0 0x202] ++
      [.timer (trapOf ring3 0)]) s :=
    path_snoc.mpr ⟨_, oneRuns_run, step_next (by decide) rfl⟩
  exact ((queues_hold_each_once smallMachine _ s h).1 0 (by decide)).1

end Kernel
end StarOS
