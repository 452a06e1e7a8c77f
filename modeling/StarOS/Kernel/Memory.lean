import StarOS.Heap.Wear
import StarOS.Heap.Contract
import StarOS.Kernel.Queues

/-!
# The heap under the queues (`linked_list.h`, `process.cpp`, `kernel.cpp`)

Every element of a queue lies in a node from `malloc`, and `remove`, `pop_front` and `filter` give
the node back.  The TSS, the blocks of `test_malloc`, and the file buffer and the `Process` of every
`execv` are never given back.

* `NodeCall`, `Kernel.calls`   what a step of the kernel asks of the heap, in the order of the source;
* `Memory`             the heap with the addresses of what is in use;
* `System.Step`       a step of the kernel together with its calls;
* `calls_queues`       the calls of a step turn the queues before it into the queues after it;
* `nodes_apart`        in every run the nodes hold the queues of the kernel, and no two things in use
                       share a byte;
* `halts_in_heap`      a step of the kernel fails in the heap only for want of room.
-/

namespace StarOS
open Lib

/-- the lists whose nodes come from the heap -/
inductive Queue where
  | ready | running | blocking | sleeping
deriving DecidableEq

/-- `sizeof(Node)`: a pointer and the link, or a `CountDownClock` and the link -/
def nodeSize : Queue → UInt32
  | .ready => 8
  | .running => 8
  | .blocking => 8
  | .sleeping => 16

def sizeofTSS : UInt32 := 104
def sizeofProcess : UInt32 := 80

/-- a call of the heap, with the node it is for: one that holds the process `p`, or its clock -/
inductive NodeCall where
  | insert (q : Queue) (p : Nat)
  | unlink (q : Queue) (p : Nat)
  /-- an allocation that is never freed -/
  | keep (size : UInt32)
deriving DecidableEq

namespace Kernel

/-- the processes of a queue -/
def queue (s : Kernel) : Queue → List Nat
  | .ready => s.readyQueue
  | .running => s.runningQueue
  | .blocking => s.blockingQueue
  | .sleeping => s.waitingSleepQueue.map CountDownClock.process

/-- `blocking_queue.remove(p); ready_queue.push_back(p)` -/
def wakeCalls (p : Nat) : List NodeCall := [.unlink .blocking p, .insert .ready p]

/-- `for_each` wakes the processes whose clocks reach zero, `filter` drops the clocks that have run out -/
def tickCalls (s : Kernel) : List NodeCall :=
  (expiring s.waitingSleepQueue).flatMap wakeCalls ++
    (s.waitingSleepQueue.filter fun c => ¬ c.countDown > 1).map fun c => .unlink .sleeping c.process

/-- the calls of a step; `size` is the size of the file `execv` loads -/
def calls (s : Kernel) (size : UInt32) : Action → List NodeCall
  | .execv _ => [.keep size, .keep sizeofProcess, .insert .ready s.created]
  | .dispatch _ _ =>
    match s.readyQueue with
    | [] => []
    | p :: _ => [.unlink .ready p, .insert .running p]
  | .timer _ =>
    s.tickCalls ++
      match s.currentControlFlow, s.currentProcess with
      | .processThread, some p => [.unlink .running p, .insert .ready p]
      | _, _ => []
  | .keyboard t =>
    match ps2KeyboardInterrupt s.keyboard t.data, s.processWaitingGets with
    | .ok r, some p => if !r.keyboard.gets.enabled && r.keyboard.gets.count != 0 then wakeCalls p else []
    | _, _ => []
  | .syscall t =>
    match t.regs.eax.toNat, s.currentProcess with
    | 4, some p => [.unlink .running p, .insert .blocking p]
    | 5, some p => [.unlink .running p, .insert .blocking p, .insert .sleeping p]
    | _, _ => []

end Kernel

/-- the heap; what is kept, with the size asked for; and the nodes of every queue, with the process in each -/
structure Memory where
  heap : Heap
  kept : List (Nat × UInt32)
  cells : Queue → List (Nat × Nat)

namespace Memory

def boot (location : DataAddress) : Memory := ⟨Heap.boot location, [], fun _ => []⟩

/-- a call, or its halt: `unlink` frees the first node of the queue that holds the process -/
def call (m : Memory) : NodeCall → Option Memory
  | .insert q p =>
    (mallocArray m.heap (nodeSize q)).map fun r =>
      { m with heap := r.2, cells := Function.update m.cells q (m.cells q ++ [(r.1, p)]) }
  | .unlink q p =>
    ((m.cells q).find? fun c => c.2 = p).bind fun c =>
      (freeArray m.heap c.1).map fun h =>
        { m with heap := h, cells := Function.update m.cells q ((m.cells q).erase c) }
  | .keep size => (mallocArray m.heap size).map fun r => { m with heap := r.2, kept := m.kept ++ [(r.1, size)] }

def Step (m : Memory) (c : NodeCall) (m' : Memory) : Prop := m.call c = some m'

/-- the processes of a queue, read off its nodes -/
def queue (m : Memory) (q : Queue) : List Nat := (m.cells q).map Prod.snd

/-- the addresses in use, with the sizes asked for -/
def owned (m : Memory) : List (Nat × UInt32) :=
  m.kept ++ [Queue.ready, .running, .blocking, .sleeping].flatMap fun q =>
    (m.cells q).map fun c => (c.1, nodeSize q)

end Memory

structure System where
  kernel : Kernel
  memory : Memory

namespace System

/-- an action, with the size of the file if it is an `execv` -/
def Step (m : System) (l : Action × UInt32) (m' : System) : Prop :=
  m.kernel.Step l.1 m'.kernel ∧ Path Memory.Step m.memory (m.kernel.calls l.2 l.1) m'.memory

/-- `init_GDT`, then `test_malloc` -/
def bootCalls : List NodeCall := [.keep sizeofTSS, .keep 4, .keep 4, .keep 25, .keep 1]

/-- as `kernel_main` enters the scheduler, before the first `execv` -/
def Booted (b : BootState) (location : DataAddress) (m : System) : Prop :=
  m.kernel = Kernel.boot b ∧ Path Memory.Step (Memory.boot location) bootCalls m.memory

end System

/-! ## the calls and the queues -/

section
variable {T : Type*} [DecidableEq T]

/-- the first pair with a given second component, taken out -/
theorem erase_find_snd {l : List (Nat × T)} {x : T} {c : Nat × T} (h : l.find? (fun c => c.2 = x) = some c) :
    c ∈ l ∧ c.2 = x ∧ (l.erase c).map Prod.snd = (l.map Prod.snd).erase x := by
  induction l with
  | nil => cases h
  | cons b l ih =>
    by_cases hb : b.2 = x
    · rw [List.find?_cons_of_pos (by simpa using hb)] at h
      obtain rfl := Option.some.inj h
      refine ⟨List.mem_cons_self, hb, ?_⟩
      rw [List.erase_cons_head, List.map_cons, hb, List.erase_cons_head]
    · rw [List.find?_cons_of_neg (by simpa using hb)] at h
      obtain ⟨hc, hx, he⟩ := ih h
      have hne : b ≠ c := fun e => hb (e ▸ hx)
      refine ⟨List.mem_cons_of_mem _ hc, hx, ?_⟩
      rw [List.erase_cons_tail (by simpa using hne), List.map_cons, List.map_cons, he,
        List.erase_cons_tail (by simpa using hb)]

end

/-- a call on the queues themselves -/
def NodeCall.apply (c : NodeCall) (qs : Queue → List Nat) : Option (Queue → List Nat) :=
  match c with
  | .insert q p => some (Function.update qs q (qs q ++ [p]))
  | .unlink q p => if p ∈ qs q then some (Function.update qs q ((qs q).erase p)) else none
  | .keep _ => some qs

/-- the step relation of the queues -/
def NodeCall.Applied (qs : Queue → List Nat) (c : NodeCall) (qs' : Queue → List Nat) : Prop :=
  c.apply qs = some qs'

section
variable {qs : Queue → List Nat}

theorem update_queue (qs : Queue → List Nat) (f : Queue → List (Nat × Nat)) (q : Queue) (l : List (Nat × Nat))
    (hf : ∀ q, (f q).map Prod.snd = qs q) :
    (fun q' => (Function.update f q l q').map Prod.snd) = Function.update qs q (l.map Prod.snd) := by
  funext q'
  by_cases h : q' = q
  · subst h
    rw [Function.update_self, Function.update_self]
  · rw [Function.update_of_ne h, Function.update_of_ne h, hf]

/-- a call of the heap is that call on the queues -/
theorem memory_applied {m m' : Memory} {c : NodeCall} (h : m.Step c m') :
    NodeCall.Applied m.queue c m'.queue := by
  cases c with
  | insert q p =>
    obtain ⟨r, -, rfl⟩ := Option.map_eq_some_iff.mp h
    show some _ = some _
    congr 1
    refine Eq.symm ((update_queue m.queue m.cells q _ fun _ => rfl).trans ?_)
    rw [List.map_append]
    rfl
  | unlink q p =>
    obtain ⟨c, hc, h⟩ := Option.bind_eq_some_iff.mp h
    obtain ⟨heap, -, rfl⟩ := Option.map_eq_some_iff.mp h
    obtain ⟨hmem, hp, he⟩ := erase_find_snd hc
    have hq : p ∈ m.queue q := hp ▸ List.mem_map_of_mem hmem
    show (if p ∈ m.queue q then _ else _) = _
    rw [if_pos hq]
    congr 1
    refine Eq.symm ((update_queue m.queue m.cells q _ fun _ => rfl).trans ?_)
    rw [he]
    rfl
  | keep size =>
    obtain ⟨r, -, rfl⟩ := Option.map_eq_some_iff.mp h
    rfl

theorem memory_applied_path {m m' : Memory} {cs : List NodeCall} (h : Path Memory.Step m cs m') :
    Path NodeCall.Applied m.queue cs m'.queue := by
  induction cs generalizing m with
  | nil => exact congrArg Memory.queue h
  | cons c cs ih =>
    obtain ⟨n, hn, h⟩ := h
    exact ⟨_, memory_applied hn, ih h⟩

theorem memory_unique {m n n' : Memory} {cs : List NodeCall} (h : Path Memory.Step m cs n)
    (h' : Path Memory.Step m cs n') : n = n' := by
  induction cs generalizing m with
  | nil => exact (path_nil.mp h).symm.trans (path_nil.mp h')
  | cons c cs ih =>
    obtain ⟨o, ho, h⟩ := h
    obtain ⟨o', ho', h'⟩ := h'
    obtain rfl : o = o' := Option.some.inj (ho.symm.trans ho')
    exact ih h h'

theorem applied_unique {cs : List NodeCall} {q₁ q₂ : Queue → List Nat} (h₁ : Path NodeCall.Applied qs cs q₁)
    (h₂ : Path NodeCall.Applied qs cs q₂) : q₁ = q₂ := by
  induction cs generalizing qs with
  | nil => exact (path_nil.mp h₁).symm.trans (path_nil.mp h₂)
  | cons c cs ih =>
    obtain ⟨n₁, hn₁, h₁⟩ := h₁
    obtain ⟨n₂, hn₂, h₂⟩ := h₂
    obtain rfl : n₁ = n₂ := Option.some.inj (hn₁.symm.trans hn₂)
    exact ih h₁ h₂

/-- two states of the queues -/
theorem queue_ext {f g : Queue → List Nat} (hready : f .ready = g .ready) (hrunning : f .running = g .running)
    (hblocking : f .blocking = g .blocking) (hsleeping : f .sleeping = g .sleeping) : f = g := by
  funext q
  cases q with
  | ready => exact hready
  | running => exact hrunning
  | blocking => exact hblocking
  | sleeping => exact hsleeping

/-- where a run of calls ends, queue by queue -/
theorem applied_to {cs : List NodeCall} {f g : Queue → List Nat} (h : Path NodeCall.Applied qs cs f)
    (hready : f .ready = g .ready) (hrunning : f .running = g .running) (hblocking : f .blocking = g .blocking)
    (hsleeping : f .sleeping = g .sleeping) : Path NodeCall.Applied qs cs g :=
  queue_ext hready hrunning hblocking hsleeping ▸ h

theorem applied_unlink {q : Queue} {p : Nat} (h : p ∈ qs q) :
    NodeCall.Applied qs (.unlink q p) (Function.update qs q ((qs q).erase p)) := if_pos h

/-- one queue after another: taken from `q`, put into `q'` -/
theorem applied_move (qs : Queue → List Nat) (q q' : Queue) {p : Nat} (h : p ∈ qs q) (hne : q ≠ q') :
    Path NodeCall.Applied qs [.unlink q p, .insert q' p]
      (Function.update (Function.update qs q ((qs q).erase p)) q' (qs q' ++ [p])) := by
  refine ⟨_, applied_unlink h, _, rfl, ?_⟩
  show Function.update _ q' _ = _
  rw [Function.update_of_ne hne.symm]

/-- the processes of `l` go from `blocking_queue` to `ready_queue` -/
theorem applied_wake (qs : Queue → List Nat) {l : List Nat} (hl : l.Nodup) (hb : ∀ p ∈ l, p ∈ qs .blocking) :
    Path NodeCall.Applied qs (l.flatMap Kernel.wakeCalls)
      (Function.update (Function.update qs .blocking ((qs .blocking).diff l)) .ready (qs .ready ++ l)) := by
  induction l generalizing qs with
  | nil =>
    show qs = _
    rw [List.diff_nil, List.append_nil, Function.update_eq_self, Function.update_eq_self]
  | cons p l ih =>
    rw [List.nodup_cons] at hl
    refine path_append.mpr ⟨_, applied_move qs .blocking .ready (hb p List.mem_cons_self) (by decide), ?_⟩
    have hrest := ih (Function.update (Function.update qs .blocking ((qs .blocking).erase p)) .ready
      (qs .ready ++ [p])) hl.2 fun p' hp' => by
        have hne : p' ≠ p := fun e => hl.1 (e ▸ hp')
        rw [Function.update_of_ne (by decide), Function.update_self]
        exact (List.mem_erase_of_ne hne).mpr (hb p' (List.mem_cons_of_mem _ hp'))
    refine applied_to hrest ?_ ?_ ?_ ?_ <;> simp [Function.update]

/-- the processes of `l` leave the queue `q` -/
theorem applied_filter (qs : Queue → List Nat) (q : Queue) {l : List Nat} (hl : l.Nodup) (hb : ∀ p ∈ l, p ∈ qs q) :
    Path NodeCall.Applied qs (l.map (NodeCall.unlink q)) (Function.update qs q ((qs q).diff l)) := by
  induction l generalizing qs with
  | nil =>
    show qs = _
    rw [List.diff_nil, Function.update_eq_self]
  | cons p l ih =>
    rw [List.nodup_cons] at hl
    refine ⟨_, applied_unlink (hb p List.mem_cons_self), ?_⟩
    have hrest := ih (Function.update qs q ((qs q).erase p)) hl.2 fun p' hp' => by
      have hne : p' ≠ p := fun e => hl.1 (e ▸ hp')
      rw [Function.update_self]
      exact (List.mem_erase_of_ne hne).mpr (hb p' (List.mem_cons_of_mem _ hp'))
    rw [Function.update_idem, Function.update_self] at hrest
    rw [List.diff_cons]
    exact hrest

end

/-! ## the calls of a step -/

namespace Kernel
variable {s t : Kernel}

/-- the clocks that run out, taken off the list of the sleeping processes -/
theorem diff_expired {clocks : List CountDownClock} (p : CountDownClock → Bool)
    (hn : (clocks.map CountDownClock.process).Nodup) :
    (clocks.map CountDownClock.process).diff ((clocks.filter fun c => !p c).map CountDownClock.process)
      = (clocks.filter p).map CountDownClock.process := by
  induction clocks with
  | nil => rfl
  | cons c cs ih =>
    rw [List.map_cons, List.nodup_cons] at hn
    by_cases hc : p c = true
    · have hnot : c.process ∉ (cs.filter fun c => !p c).map CountDownClock.process := fun h =>
        hn.1 ((List.filter_sublist.map _).subset h)
      rw [List.filter_cons_of_pos hc, List.filter_cons_of_neg (by simp [hc]), List.map_cons,
        List.cons_diff_of_not_mem hnot, ih hn.2, List.map_cons]
    · rw [List.filter_cons_of_neg hc, List.filter_cons_of_pos (by simp [hc]), List.map_cons, List.map_cons,
        List.diff_cons, List.erase_cons_head, ih hn.2]

theorem tick_applied (hi : s.Inv) : Path NodeCall.Applied s.queue s.tickCalls s.afterTick.queue := by
  have hsub := expiring_sublist s.waitingSleepQueue
  have hwake := applied_wake s.queue (hi.clocks_nodup.sublist hsub) fun p hp => by
    obtain ⟨c, hc, rfl⟩ := List.mem_map.mp (hsub.subset hp)
    exact hi.clocks_blocked c hc
  refine path_append.mpr ⟨_, hwake, ?_⟩
  have hgone : (s.waitingSleepQueue.filter fun c => decide ¬ c.countDown > 1)
      = s.waitingSleepQueue.filter fun c => !decide (c.countDown > 1) :=
    List.filter_congr fun c _ => decide_not
  have hmap : (s.waitingSleepQueue.filter fun c => decide ¬ c.countDown > 1).map
        (fun c => NodeCall.unlink .sleeping c.process)
      = ((s.waitingSleepQueue.filter fun c => !decide (c.countDown > 1)).map CountDownClock.process).map
        (NodeCall.unlink .sleeping) := by
    rw [hgone, List.map_map]
    rfl
  have hfilter := applied_filter (Function.update (Function.update s.queue .blocking ((s.queue .blocking).diff
      (expiring s.waitingSleepQueue))) .ready (s.queue .ready ++ expiring s.waitingSleepQueue)) .sleeping
    (l := (s.waitingSleepQueue.filter fun c => !decide (c.countDown > 1)).map CountDownClock.process)
    (hi.clocks_nodup.sublist (List.filter_sublist.map _)) fun p hp => by
      rw [Function.update_of_ne (by decide), Function.update_of_ne (by decide)]
      exact (List.filter_sublist.map _).subset hp
  rw [hmap]
  refine applied_to hfilter rfl rfl rfl ?_
  rw [Function.update_self, Function.update_of_ne (by decide), Function.update_of_ne (by decide)]
  show (s.waitingSleepQueue.map CountDownClock.process).diff _ = (List.map _ (List.map _ _))
  rw [diff_expired (fun c => decide (c.countDown > 1)) hi.clocks_nodup, List.map_map]
  rfl

/-- the process that runs is `CURRENT_PROCESS` -/
theorem Inv.current_of_running (hi : s.Inv) {p : Nat} (hr : s.runningQueue = [p]) :
    s.currentControlFlow = .processThread ∧ s.currentProcess = some p := by
  rcases hi.thread with ⟨-, hc, q, hq, hp⟩ | ⟨-, -, hq⟩
  · obtain rfl : q = p := List.singleton_inj.mp (hq.symm.trans hr)
    exact ⟨hc, hp⟩
  · rw [hq] at hr
    cases hr

/-- off the CPU: out of `running_queue` and into another queue -/
theorem offCpu_applied {p : Nat} (hr : s.runningQueue = [p]) {q : Queue} (hq : q ≠ .running) :
    Path NodeCall.Applied s.queue [.unlink .running p, .insert q p]
      (Function.update (Function.update s.queue .running (s.runningQueue.erase p)) q (s.queue q ++ [p])) :=
  applied_move s.queue .running q (show p ∈ s.runningQueue from hr ▸ List.mem_singleton_self p) hq.symm

/-- **The calls of a step turn the queues before it into the queues after it.** -/
theorem calls_queues (hi : s.Inv) {a : Action} (hs : s.Step a t) (size : UInt32) :
    Path NodeCall.Applied s.queue (s.calls size a) t.queue := by
  cases a with
  | execv image =>
    cases hs.outcome hi with
    | enqueued _ P gdt =>
      refine ⟨_, rfl, _, rfl, _, rfl, ?_⟩
      exact queue_ext rfl rfl rfl rfl
  | dispatch kernel flags =>
    show Path _ _ (match s.readyQueue with | [] => [] | p :: _ => [NodeCall.unlink .ready p, .insert .running p]) _
    cases hq : s.readyQueue with
    | nil =>
      have he := (schedular_nil kernel flags hq).symm.trans hs.2
      obtain rfl := Except.ok.inj he
      exact rfl
    | cons p ready =>
      have he := (schedular_cons kernel flags hq).symm.trans hs.2
      obtain rfl := Except.ok.inj he
      have hmove := applied_move s.queue .ready .running
        (show p ∈ s.readyQueue from hq ▸ List.mem_cons_self) (by decide)
      refine applied_to hmove ?_ rfl rfl rfl
      show s.readyQueue.erase p = ready
      rw [hq, List.erase_cons_head]
  | timer x =>
    refine path_append.mpr ⟨_, tick_applied hi, ?_⟩
    cases hs.outcome hi with
    | ticked _ hm =>
      rw [(hi.kernel hm).1]
      exact queue_ext rfl rfl rfl rfl
    | preempted _ p hr =>
      obtain ⟨hc, hp⟩ := hi.current_of_running hr
      rw [hc, hp]
      exact applied_to (offCpu_applied (s := s.afterTick) hr (q := .ready) (by decide)) rfl rfl rfl rfl
  | keyboard x =>
    cases hk : ps2KeyboardInterrupt s.keyboard x.data with
    | error e => exact absurd ((trap_keyboard_error hk).symm.trans hs.2) (by simp)
    | ok r =>
      by_cases hg : r.keyboard.gets.enabled = true ∨ r.keyboard.gets.count = 0
      · obtain rfl := Except.ok.inj ((keyboard_typed hk hi.no_return hg).symm.trans hs.2)
        have hcond : (!r.keyboard.gets.enabled && r.keyboard.gets.count != 0) = false := by
          rcases hg with hg | hg <;> simp [hg]
        have hcalls : s.calls size (.keyboard x) = [] := by
          rw [calls, hk]
          cases s.processWaitingGets with
          | none => rfl
          | some p => simp only [hcond, Bool.false_eq_true, if_false]
        rw [hcalls]
        exact queue_ext rfl rfl rfl rfl
      · cases hs.outcome hi with
        | typed _ r' hk' _ hg' =>
          obtain rfl := Except.ok.inj (hk.symm.trans hk')
          exact absurd hg' hg
        | answered _ r' p hk' _ _ he hw hb =>
          obtain rfl := Except.ok.inj (hk.symm.trans hk')
          have hn : r.keyboard.gets.count ≠ 0 := fun h => hg (Or.inr h)
          have hcalls : s.calls size (.keyboard x) = wakeCalls p := by
            rw [calls, hk, hw]
            simp [he, hn]
          rw [hcalls]
          refine applied_to (applied_move s.queue .blocking .ready hb (by decide))
            rfl rfl ?_ rfl
          show s.blockingQueue.erase p = s.blockingQueue.diff [p]
          rw [List.diff_cons, List.diff_nil]
  | syscall x =>
    cases hs.outcome hi with
    | served _ paging eax hu hm hother =>
      have hcalls : s.calls size (.syscall x) = [] := by
        rw [calls]
        split
        · rename_i h _
          exact absurd (UInt32.toNat_inj.mp h) hother.1
        · rename_i h _
          exact absurd (UInt32.toNat_inj.mp h) hother.2
        · rfl
      rw [hcalls]
      exact queue_ext rfl rfl rfl rfl
    | gets _ p paging hr hu h4 =>
      rw [calls, (hi.current_of_running hr).2, h4]
      exact applied_to (offCpu_applied hr (q := .blocking) (by decide)) rfl rfl rfl rfl
    | sleep _ p hr hu h5 =>
      rw [calls, (hi.current_of_running hr).2, h5]
      show Path _ _ ([NodeCall.unlink .running p, .insert .blocking p] ++ [.insert .sleeping p]) _
      refine path_snoc.mpr ⟨_, offCpu_applied hr (q := .blocking) (by decide), ?_⟩
      refine congrArg some (queue_ext rfl rfl rfl ?_)
      show s.waitingSleepQueue.map CountDownClock.process ++ [p] = List.map _ (s.waitingSleepQueue ++ [_])
      rw [List.map_append]
      rfl

end Kernel

/-! ## what is in use does not overlap -/

/-- the valid entries of `Allocated_blocks`: address and size -/
def Heap.recorded (h : Heap) : List (Nat × Nat) :=
  (h.allocatedBlocks.filter MemoryBlock.isValid).map fun b => (b.start, b.size)

/-- setting the tables up loses no allocated block -/
theorem ensureInit_allocated {h h₀ : Heap} (ht : h.Tiled) (hi : h.ensureInit = some h₀) :
    h₀.allocatedBlocks = h.allocatedBlocks := by
  rcases ensureInit_cases hi with ⟨-, rfl⟩ | ⟨hm, rfl⟩
  · rfl
  · exact (ht.2 hm).2.symm

theorem recorded_malloc {h h' : Heap} {size : UInt32} {p : Nat} (ht : h.Tiled)
    (hm : mallocArray h size = some (p, h')) :
    h'.Tiled ∧ h'.recorded = h.recorded ++ [(p, alignSize size.toNat)] ∧
      h'.allocatedBlocks.length = h.allocatedBlocks.length + 1 := by
  have htiled := tiled_malloc ht hm
  obtain ⟨h₀, pre, b, post, hi, -, -, rfl, -, rfl⟩ := mallocArray_some hm
  have hsame := ensureInit_allocated ht hi
  refine ⟨Heap.Tiled.of_init htiled.1 htiled.2, ?_, ?_⟩
  · show List.map _ (List.filter _ (h₀.allocatedBlocks ++ [_])) = _
    rw [List.filter_append, List.map_append, hsame]
    rfl
  · show (h₀.allocatedBlocks ++ [_]).length = _
    rw [hsame, List.length_append, List.length_singleton]

/-- blocks of positive size do not share their first byte -/
theorem recorded_nodup {h : Heap} (ht : h.Tiled) (hpos : ∀ a ∈ h.recorded, 0 < a.2) :
    h.recorded.Pairwise (fun a b => a.1 + a.2 ≤ b.1 ∨ b.1 + b.2 ≤ a.1) ∧ (h.recorded.map Prod.fst).Nodup ∧
      ∀ a ∈ h.recorded, freeMemoryStart ≤ a.1 ∧ a.1 + a.2 ≤ heapEnd := by
  cases hinit : h.mallocInitialized with
  | false =>
    have hempty : h.recorded = [] := by rw [Heap.recorded, (ht.2 hinit).2]; rfl
    rw [hempty]
    exact ⟨List.Pairwise.nil, List.nodup_nil, fun a ha => absurd ha List.not_mem_nil⟩
  | true =>
    obtain ⟨hin, hpair, -⟩ := (ht.1 hinit).exactly
    have hsub : (h.allocatedBlocks.filter MemoryBlock.isValid).Sublist h.validBlocks :=
      (List.sublist_append_right _ _).filter _
    have hsize : ∀ b ∈ h.allocatedBlocks.filter MemoryBlock.isValid, 0 < b.size := fun b hb =>
      hpos (b.start, b.size) (List.mem_map_of_mem hb)
    have happart : h.recorded.Pairwise (fun a b => a.1 + a.2 ≤ b.1 ∨ b.1 + b.2 ≤ a.1) := by
      refine List.pairwise_map.mpr ((hpair.sublist hsub).imp_of_mem fun {b c} hb hc hbc => ?_)
      have h1 := (hin b (hsub.subset hb)).1
      have h2 := (hin c (hsub.subset hc)).1
      have h3 := hbc (hsize b hb) (hsize c hc)
      show b.start + b.size ≤ c.start ∨ c.start + c.size ≤ b.start
      omega
    refine ⟨happart, ?_, ?_⟩
    · refine List.pairwise_map.mpr (happart.imp_of_mem fun {a b} ha hb hab e => ?_)
      have h1 := hpos a ha
      have h2 := hpos b hb
      omega
    · intro a ha
      obtain ⟨b, hb, rfl⟩ := List.mem_map.mp ha
      obtain ⟨h1, -, h2, h3⟩ := hin b (hsub.subset hb)
      exact ⟨h2, h1 ▸ h3⟩

/-- `free` takes out the entry it is called for, if no two entries share an address -/
theorem recorded_free {h h' : Heap} {p size : Nat} (ht : h.Tiled) (hn : (h.recorded.map Prod.fst).Nodup)
    (hp : (p, size) ∈ h.recorded) (hf : freeArray h p = some h') :
    h'.Tiled ∧ h.recorded.Perm ((p, size) :: h'.recorded) ∧
      h'.allocatedBlocks.length = h.allocatedBlocks.length := by
  have hinit : h.mallocInitialized = true := by
    by_contra hinit
    rw [Heap.recorded, (ht.2 (Bool.eq_false_iff.mpr hinit)).2] at hp
    exact absurd hp List.not_mem_nil
  have htiled := tiled_free hinit (ht.1 hinit) hf
  obtain ⟨pre, a, post, ha, hav, rfl, ha', -, -⟩ := freeArray_some hf
  have hmem : (a.start, a.size) ∈ h.recorded := by
    refine List.mem_map_of_mem (f := fun b : MemoryBlock => (b.start, b.size)) (List.mem_filter.mpr ⟨?_, hav⟩)
    rw [ha]
    exact List.mem_append_right _ List.mem_cons_self
  have hsize : (a.start, a.size) = (a.start, size) := List.inj_on_of_nodup_map hn hmem hp rfl
  refine ⟨Heap.Tiled.of_init htiled.1 htiled.2, ?_, ?_⟩
  · rw [← hsize]
    have hold : h.recorded = ((pre ++ a :: post).filter MemoryBlock.isValid).map fun b => (b.start, b.size) := by
      rw [Heap.recorded, ha]
    have hnew : h'.recorded = ((pre ++ post).filter MemoryBlock.isValid).map fun b => (b.start, b.size) := by
      rw [Heap.recorded, ha', List.filter_append, List.filter_cons_of_neg (by simp), ← List.filter_append]
    rw [hold, hnew]
    exact (filter_middle pre post hav).map _
  · rw [ha', ha]
    simp

/-- a size `malloc` rounds up as intended, and not to 0 -/
def Memory.Sized (size : UInt32) : Prop := 0 < size.toNat ∧ size.toNat ≤ 0xfffffff8

/-- what a call asks for is such a size -/
def NodeCall.Sized : NodeCall → Prop
  | .keep size => Memory.Sized size
  | _ => True

namespace Memory
variable {m m' : Memory}

/-- what is in use is what the heap has recorded -/
structure Inv (m : Memory) : Prop where
  tiled : m.heap.Tiled
  recorded : m.heap.recorded.Perm (m.owned.map fun a => (a.1, alignSize a.2.toNat))
  sized : ∀ a ∈ m.owned, Sized a.2

theorem inv_boot (location : DataAddress) : (boot location).Inv where
  tiled := tiled_boot location
  recorded := List.Perm.refl _
  sized := fun _ h => absurd h List.not_mem_nil

theorem sized_nodeSize (q : Queue) : Sized (nodeSize q) := by
  cases q <;> exact ⟨by decide, by decide⟩

theorem owned_insert (q : Queue) (c : Nat × Nat) (heap : Heap) :
    ({ m with heap := heap, cells := Function.update m.cells q (m.cells q ++ [c]) } : Memory).owned.Perm
      ((c.1, nodeSize q) :: m.owned) := by
  have hmid : ∀ l₁ l₂ : List (Nat × UInt32), (l₁ ++ ([(c.1, nodeSize q)] ++ l₂)).Perm
      ((c.1, nodeSize q) :: (l₁ ++ l₂)) := fun l₁ l₂ => List.perm_middle
  cases q with
  | ready => simpa [owned, Function.update] using hmid (m.kept ++ _) _
  | running => simpa [owned, Function.update] using hmid (m.kept ++ _ ++ _) _
  | blocking => simpa [owned, Function.update] using hmid (m.kept ++ _ ++ _ ++ _) _
  | sleeping => simpa [owned, Function.update] using hmid (m.kept ++ _ ++ _ ++ _ ++ _) []

theorem owned_unlink {q : Queue} {c : Nat × Nat} (heap : Heap) (hc : c ∈ m.cells q) :
    m.owned.Perm ((c.1, nodeSize q) ::
      ({ m with heap := heap, cells := Function.update m.cells q ((m.cells q).erase c) } : Memory).owned) := by
  have hcells : ∀ q', (m.cells q').Perm (Function.update (Function.update m.cells q ((m.cells q).erase c)) q
      ((m.cells q).erase c ++ [c]) q') := by
    intro q'
    by_cases h : q' = q
    · subst h
      rw [Function.update_self]
      exact (List.perm_cons_erase hc).trans (List.perm_append_singleton c _).symm
    · rw [Function.update_of_ne h, Function.update_of_ne h]
  have hback := owned_insert
    (m := { m with heap := heap, cells := Function.update m.cells q ((m.cells q).erase c) }) q c heap
  dsimp only at hback
  rw [Function.update_self] at hback
  refine List.Perm.trans (List.Perm.append_left _ ?_) hback
  exact List.Perm.flatMap_left _ fun q' _ => (hcells q').map _

theorem align_pos {size : UInt32} (h : Sized size) : 0 < alignSize size.toNat :=
  Nat.lt_of_lt_of_le h.1 (le_alignSize h.2)

theorem Inv.positive (hi : m.Inv) : ∀ a ∈ m.heap.recorded, 0 < a.2 := by
  intro a ha
  obtain ⟨b, hb, rfl⟩ := List.mem_map.mp (hi.recorded.subset ha)
  exact align_pos (hi.sized b hb)

/-- a new block comes into use -/
theorem inv_malloc (hi : m.Inv) {size : UInt32} {p : Nat} {heap : Heap} (hs : Sized size)
    (hm : mallocArray m.heap size = some (p, heap)) (hheap : m'.heap = heap)
    (ho : m'.owned.Perm ((p, size) :: m.owned)) : m'.Inv := by
  obtain ⟨ht, hr, -⟩ := recorded_malloc hi.tiled hm
  subst hheap
  refine ⟨ht, ?_, ?_⟩
  · rw [hr]
    have hall := (hi.recorded.append_right [(p, alignSize size.toNat)]).trans (List.perm_append_singleton _ _)
    exact hall.trans (ho.symm.map fun a : Nat × UInt32 => (a.1, alignSize a.2.toNat))
  · intro a ha
    rcases List.mem_cons.mp (ho.subset ha) with rfl | ha
    · exact hs
    · exact hi.sized a ha

theorem inv_call (hi : m.Inv) {c : NodeCall} (hs : c.Sized) (h : m.Step c m') : m'.Inv := by
  cases c with
  | insert q p =>
    obtain ⟨⟨a, heap⟩, hm, rfl⟩ := Option.map_eq_some_iff.mp h
    exact inv_malloc hi (sized_nodeSize q) hm rfl (owned_insert q (a, p) heap)
  | keep size =>
    obtain ⟨⟨a, heap⟩, hm, rfl⟩ := Option.map_eq_some_iff.mp h
    refine inv_malloc hi hs hm rfl ?_
    show (m.kept ++ [(a, size)] ++ _).Perm ((a, size) :: (m.kept ++ _))
    rw [List.append_assoc]
    exact List.perm_middle
  | unlink q p =>
    obtain ⟨c, hc, h⟩ := Option.bind_eq_some_iff.mp h
    obtain ⟨heap, hf, rfl⟩ := Option.map_eq_some_iff.mp h
    have hcmem := List.mem_of_find?_eq_some hc
    have ho := owned_unlink heap hcmem
    have hown : (c.1, nodeSize q) ∈ m.owned := ho.mem_iff.mpr List.mem_cons_self
    have hrec : (c.1, alignSize (nodeSize q).toNat) ∈ m.heap.recorded :=
      hi.recorded.mem_iff.mpr (List.mem_map_of_mem (f := fun a : Nat × UInt32 => (a.1, alignSize a.2.toNat)) hown)
    obtain ⟨ht, hr, -⟩ := recorded_free hi.tiled (recorded_nodup hi.tiled hi.positive).2.1 hrec hf
    refine ⟨ht, ?_, fun a ha => hi.sized a (ho.mem_iff.mpr (List.mem_cons_of_mem _ ha))⟩
    -- the freed block and its owner drop out on both sides
    have hall := hr.symm.trans (hi.recorded.trans (ho.map fun a : Nat × UInt32 => (a.1, alignSize a.2.toNat)))
    exact hall.cons_inv

theorem inv_calls (hi : m.Inv) {cs : List NodeCall} (hs : ∀ c ∈ cs, c.Sized) (h : Path Step m cs m') : m'.Inv :=
  h.inv_labels (I := Inv) (P := NodeCall.Sized) (fun _ _ _ hi hc hn => inv_call hi hc hn) hs hi

/-- no two things in use share a byte -/
theorem Inv.apart (hi : m.Inv) :
    m.owned.Pairwise (fun a b => a.1 + a.2.toNat ≤ b.1 ∨ b.1 + b.2.toNat ≤ a.1) ∧
      ∀ a ∈ m.owned, freeMemoryStart ≤ a.1 ∧ a.1 + a.2.toNat ≤ heapEnd := by
  obtain ⟨hpair, -, hin⟩ := recorded_nodup hi.tiled hi.positive
  have hpair' := (hi.recorded.pairwise_iff fun {a b} h => Or.symm h).mp hpair
  refine ⟨(List.pairwise_map.mp hpair').imp_of_mem fun {a b} ha hb hab => ?_, fun a ha => ?_⟩
  · have h1 := le_alignSize (hi.sized a ha).2
    have h2 := le_alignSize (hi.sized b hb).2
    have h3 : a.1 + alignSize a.2.toNat ≤ b.1 ∨ b.1 + alignSize b.2.toNat ≤ a.1 := hab
    omega
  · have h1 := le_alignSize (hi.sized a ha).2
    obtain ⟨h2, h3⟩ := hin _ (hi.recorded.mem_iff.mpr
      (List.mem_map_of_mem (f := fun a : Nat × UInt32 => (a.1, alignSize a.2.toNat)) ha))
    exact ⟨h2, Nat.le_trans (Nat.add_le_add_left h1 _) h3⟩

/-! ## when a call halts -/

/-- `malloc` finds no block that fits, or the table of allocated blocks full -/
def NoRoom (h : Heap) (size : UInt32) : Prop := ∀ h₀, h.ensureInit = some h₀ →
  (∀ b ∈ h₀.freeBlocks, b.fits (alignSize size.toNat) = false) ∨
    h₀.allocatedBlocks.length = allocatedTableLength

/-- `malloc` has no room; `free` meets no free block, and the table of free blocks is full -/
def Full (m : Memory) : NodeCall → Prop
  | .insert q _ => NoRoom m.heap (nodeSize q)
  | .keep size => NoRoom m.heap size
  | .unlink q p => ∃ c a, (m.cells q).find? (fun c => c.2 = p) = some c ∧
      m.heap.allocatedBlocks.find? (fun b => b.isValid && b.start == c.1) = some a ∧
      (∀ b ∈ m.heap.freeBlocks, a.meets b = false) ∧ m.heap.freeBlocks.length = tableLength

theorem malloc_eq_none {h : Heap} {size : UInt32} : mallocArray h size = none ↔ NoRoom h size := by
  obtain ⟨h₀, h0⟩ := ensureInit_isSome h
  rw [mallocArray_eq_none h0]
  constructor
  · intro hn h₁ h1
    obtain rfl := Option.some.inj (h0.symm.trans h1)
    exact hn
  · intro hn
    exact hn h₀ h0

/-- a call for a process that is in the queue halts for want of room, and only then -/
theorem call_eq_none (hi : m.Inv) {c : NodeCall} (hc : c.apply m.queue ≠ none) :
    m.call c = none ↔ m.Full c := by
  cases c with
  | insert q p => exact Option.map_eq_none_iff.trans malloc_eq_none
  | keep size => exact Option.map_eq_none_iff.trans malloc_eq_none
  | unlink q p =>
    have hp : p ∈ m.queue q := by
      by_contra hp
      exact hc (if_neg hp)
    have hfind : ∃ c, (m.cells q).find? (fun c => c.2 = p) = some c := by
      obtain ⟨d, hd, hdp⟩ := List.mem_map.mp hp
      refine Option.isSome_iff_exists.mp (List.find?_isSome.mpr ⟨d, hd, ?_⟩)
      exact decide_eq_true hdp
    obtain ⟨c, hfind⟩ := hfind
    -- the node is a recorded block, so `free` finds it
    have hown := (owned_unlink m.heap (List.mem_of_find?_eq_some hfind)).mem_iff.mpr List.mem_cons_self
    obtain ⟨b, hb, hbc⟩ := List.mem_map.mp (hi.recorded.mem_iff.mpr
      (List.mem_map_of_mem (f := fun a : Nat × UInt32 => (a.1, alignSize a.2.toNat)) hown))
    obtain ⟨hb, hbv⟩ := List.mem_filter.mp hb
    have hstart : b.start = c.1 := congrArg Prod.fst hbc
    have ha : ∃ a, m.heap.allocatedBlocks.find? (fun b => b.isValid && b.start == c.1) = some a := by
      refine Option.isSome_iff_exists.mp (List.find?_isSome.mpr ⟨b, hb, ?_⟩)
      simp [hbv, hstart]
    obtain ⟨a, ha⟩ := ha
    have hcall : m.call (.unlink q p) = none ↔ freeArray m.heap c.1 = none := by
      rw [call, hfind, Option.bind_some]
      exact Option.map_eq_none_iff
    rw [hcall, freeArray_eq_none]
    simp only [Full, hfind, ha, Option.some.injEq, forall_eq', ↓existsAndEq, true_and]

end Memory

namespace System
variable {m m' : System}

/-- the file of an `execv` is not empty, and its size can be rounded up -/
def Sized (l : Action × UInt32) : Prop := ∀ image, l.1 = .execv image → Memory.Sized l.2

theorem calls_sized (s : Kernel) {l : Action × UInt32} (hl : Sized l) : ∀ c ∈ s.calls l.2 l.1, c.Sized := by
  have hwake : ∀ p, ∀ c ∈ Kernel.wakeCalls p, c.Sized := by
    intro p c hc
    rcases List.mem_cons.mp hc with rfl | hc
    · trivial
    · obtain rfl := List.mem_singleton.mp hc
      trivial
  obtain ⟨a, size⟩ := l
  intro c hc
  cases a with
  | execv image =>
    rcases List.mem_cons.mp hc with rfl | hc
    · exact hl image rfl
    · rcases List.mem_cons.mp hc with rfl | hc
      · exact ⟨by decide, by decide⟩
      · obtain rfl := List.mem_singleton.mp hc
        trivial
  | dispatch kernel flags =>
    simp only [Kernel.calls] at hc
    split at hc
    · exact absurd hc List.not_mem_nil
    · rcases List.mem_cons.mp hc with rfl | hc
      · trivial
      · obtain rfl := List.mem_singleton.mp hc
        trivial
  | timer t =>
    rcases List.mem_append.mp hc with hc | hc
    · rcases List.mem_append.mp hc with hc | hc
      · obtain ⟨p, -, hc⟩ := List.mem_flatMap.mp hc
        exact hwake p c hc
      · obtain ⟨c', -, rfl⟩ := List.mem_map.mp hc
        trivial
    · split at hc
      · rcases List.mem_cons.mp hc with rfl | hc
        · trivial
        · obtain rfl := List.mem_singleton.mp hc
          trivial
      · exact absurd hc List.not_mem_nil
  | keyboard t =>
    simp only [Kernel.calls] at hc
    split at hc
    · split at hc
      · exact hwake _ c hc
      · exact absurd hc List.not_mem_nil
    · exact absurd hc List.not_mem_nil
  | syscall t =>
    simp only [Kernel.calls] at hc
    split at hc
    · simp only [List.mem_cons, List.not_mem_nil, or_false] at hc
      rcases hc with rfl | rfl <;> trivial
    · simp only [List.mem_cons, List.not_mem_nil, or_false] at hc
      rcases hc with rfl | rfl | rfl <;> trivial
    · exact absurd hc List.not_mem_nil

/-- the invariant of the kernel, the invariant of the memory, and the nodes hold the queues -/
structure Inv (m : System) : Prop where
  kernel : m.kernel.Inv
  memory : m.memory.Inv
  queues : m.memory.queue = m.kernel.queue

theorem inv_booted {b : BootState} {location : DataAddress} (h : Booted b location m) : m.Inv := by
  obtain ⟨hk, hm⟩ := h
  refine ⟨hk ▸ Kernel.inv_boot b, Memory.inv_calls (Memory.inv_boot location) ?_ hm, ?_⟩
  · intro c hc
    simp only [bootCalls, List.mem_cons, List.not_mem_nil, or_false] at hc
    rcases hc with rfl | rfl | rfl | rfl | rfl <;> exact ⟨by decide, by decide⟩
  · have hq : Path NodeCall.Applied (Memory.boot location).queue bootCalls (Memory.boot location).queue :=
      ⟨_, rfl, _, rfl, _, rfl, _, rfl, _, rfl, rfl⟩
    rw [applied_unique (memory_applied_path hm) hq, hk]
    exact queue_ext rfl rfl rfl rfl

theorem inv_step {l : Action × UInt32} (hi : m.Inv) (hl : Sized l) (h : Step m l m') : m'.Inv := by
  obtain ⟨hk, hm⟩ := h
  refine ⟨Kernel.inv_step hi.kernel hk, Memory.inv_calls hi.memory (calls_sized _ hl) hm, ?_⟩
  have happlied := memory_applied_path hm
  rw [hi.queues] at happlied
  exact applied_unique happlied (Kernel.calls_queues hi.kernel hk l.2)

theorem inv_run {ls : List (Action × UInt32)} (hi : m.Inv) (hl : ∀ l ∈ ls, Sized l) (h : Path Step m ls m') :
    m'.Inv := h.inv_labels (I := Inv) (P := Sized) (fun _ _ _ hi hl hn => inv_step hi hl hn) hl hi

/-- **In every run the nodes hold the queues of the kernel, and the TSS, the file buffers, the `Process`
structures and the nodes of all queues lie in the heap without sharing a byte.** -/
theorem nodes_apart (b : BootState) (location : DataAddress) (m₀ m : System) (ls : List (Action × UInt32))
    (hb : Booted b location m₀) (hl : ∀ l ∈ ls, Sized l) (h : Path Step m₀ ls m) :
    (∀ q, m.memory.queue q = m.kernel.queue q) ∧
    m.memory.owned.Pairwise (fun a b => a.1 + a.2.toNat ≤ b.1 ∨ b.1 + b.2.toNat ≤ a.1) ∧
    ∀ a ∈ m.memory.owned, freeMemoryStart ≤ a.1 ∧ a.1 + a.2.toNat ≤ heapEnd := by
  have hi := inv_run (inv_booted hb) hl h
  exact ⟨fun q => congrFun hi.queues q, hi.memory.apart⟩

/-- a process is created and dispatched -/
def smallLabels : List (Action × UInt32) := [(.execv Kernel.smallImage, 8000), (.dispatch Kernel.ring0 0x202, 0)]

theorem smallLabels_sized : ∀ l ∈ smallLabels, Sized l := by
  intro l hl image he
  rcases List.mem_cons.mp hl with rfl | hl
  · exact ⟨by decide, by decide⟩
  · rw [List.mem_singleton.mp hl] at he
    cases he

theorem small_run : ∃ m₀ m, Booted Kernel.smallMachine ⟨dataMemoryStart, by decide⟩ m₀ ∧
    Path Step m₀ smallLabels m ∧ m.memory.cells .running = [(freeMemoryStart + 160 + 8000 + 80, 0)] :=
  ⟨⟨_, _⟩, ⟨Kernel.oneRuns, _⟩, ⟨rfl, _, rfl, _, rfl, _, rfl, _, rfl, _, rfl, rfl⟩,
    ⟨⟨_, _⟩, ⟨Kernel.step_next trivial rfl, _, rfl, _, rfl, _, rfl, rfl⟩,
      ⟨_, _⟩, ⟨Kernel.step_next (by decide) rfl, _, rfl, _, rfl, rfl⟩, rfl⟩, rfl⟩

/-- the node of the process that runs -/
theorem nodes_apart_one : ∃ m₀ m, Booted Kernel.smallMachine ⟨dataMemoryStart, by decide⟩ m₀ ∧
    Path Step m₀ smallLabels m ∧ m.memory.cells .running = [(freeMemoryStart + 160 + 8000 + 80, 0)] ∧
    m.memory.owned.Pairwise (fun a b => a.1 + a.2.toNat ≤ b.1 ∨ b.1 + b.2.toNat ≤ a.1) := by
  obtain ⟨m₀, m, hb, h, hcell⟩ := small_run
  exact ⟨m₀, m, hb, h, hcell, (nodes_apart _ _ m₀ m _ hb smallLabels_sized h).2.1⟩

/-- **In every reachable state a step the kernel can take is taken, unless one of its calls of the heap finds
no room: no free block that fits, or the table of allocated blocks, or of free blocks, full.** -/
theorem halts_in_heap (b : BootState) (location : DataAddress) (m₀ m : System) (ls : List (Action × UInt32))
    (hb : Booted b location m₀) (hl : ∀ l ∈ ls, Sized l) (h : Path Step m₀ ls m) (l : Action × UInt32)
    (hsized : Sized l) (t : Kernel) (hk : m.kernel.Step l.1 t) :
    (∃ m', Step m l m' ∧ m'.kernel = t) ↔ ∀ before c after n, m.kernel.calls l.2 l.1 = before ++ c :: after →
      Path Memory.Step m.memory before n → ¬ n.Full c := by
  have hi := inv_run (inv_booted hb) hl h
  have hall := Kernel.calls_queues hi.kernel hk l.2
  -- wherever the calls stand, the next one is for a process that is in the queue
  have hnext : ∀ before c after n, m.kernel.calls l.2 l.1 = before ++ c :: after →
      Path Memory.Step m.memory before n → n.Inv ∧ c.apply n.queue ≠ none := by
    intro before c after n hcs hn
    have hsizes := calls_sized m.kernel hsized
    rw [hcs] at hsizes hall
    refine ⟨Memory.inv_calls hi.memory (fun c' hc' => hsizes c' (List.mem_append_left _ hc')) hn, ?_⟩
    obtain ⟨qs, hqs, qs', hqs', -⟩ := path_append.mp hall
    have happlied := memory_applied_path hn
    rw [hi.queues] at happlied
    rw [applied_unique happlied hqs, hqs']
    exact Option.some_ne_none _
  constructor
  · rintro ⟨m', ⟨-, hm⟩, -⟩ before c after n hcs hn hfull
    obtain ⟨hin, hc⟩ := hnext before c after n hcs hn
    rw [hcs] at hm
    obtain ⟨n', hn', n'', hstep, -⟩ := path_append.mp hm
    obtain rfl := memory_unique hn hn'
    exact absurd (((Memory.call_eq_none hin hc).mpr hfull).symm.trans hstep) (by simp)
  · intro hroom
    rcases path_or_stuck Memory.Step m.memory (m.kernel.calls l.2 l.1) with ⟨n, hn⟩ |
      ⟨before, c, after, n, hcs, hn, hstuck⟩
    · exact ⟨⟨t, n⟩, ⟨hk, hn⟩, rfl⟩
    · obtain ⟨hin, hc⟩ := hnext before c after n hcs hn
      refine absurd ((Memory.call_eq_none hin hc).mp ?_) (hroom before c after n hcs hn)
      by_contra hne
      obtain ⟨n', hn'⟩ := Option.ne_none_iff_exists'.mp hne
      exact hstuck n' hn'

/-- the first `execv` finds room -/
theorem halts_in_heap_first : ∃ m₀, Booted Kernel.smallMachine ⟨dataMemoryStart, by decide⟩ m₀ ∧
    ∀ before c after n, m₀.kernel.calls 8000 (.execv Kernel.smallImage) = before ++ c :: after →
      Path Memory.Step m₀.memory before n → ¬ n.Full c := by
  have hboot : ∃ m₀, Booted Kernel.smallMachine ⟨dataMemoryStart, by decide⟩ m₀ ∧
      ∃ m, Step m₀ (.execv Kernel.smallImage, 8000) m :=
    ⟨⟨_, _⟩, ⟨rfl, _, rfl, _, rfl, _, rfl, _, rfl, _, rfl, rfl⟩, ⟨_, _⟩,
      ⟨Kernel.step_next trivial rfl, _, rfl, _, rfl, _, rfl, rfl⟩⟩
  obtain ⟨m₀, hb, m, hm⟩ := hboot
  have hsized : Sized (.execv Kernel.smallImage, 8000) := fun _ _ => ⟨by decide, by decide⟩
  exact ⟨m₀, hb, (halts_in_heap _ _ m₀ m₀ [] hb (fun _ h => absurd h List.not_mem_nil) rfl _ hsized _ hm.1).mp
    ⟨m, hm, rfl⟩⟩

end System
end StarOS
