import Mathlib.Data.List.Perm.Subperm
import Mathlib.Data.List.Nodup
import StarOS.Kernel.Steps

/-!
# What each step does

The outcome of a step as one change of the state, for a state in which the step does not meet an
empty queue or a missing element:

* `Kernel.wakeAll`    processes go from `blocking_queue` to `ready_queue`;
* `Kernel.offCpu`     the running process is saved and control goes back to the scheduler, followed
                      by `preempt` (timer) or `block` (system call);
* `tick_eq`, `timer_kernel`, `timer_user`, `keyboard_cases`, `syscall_cases`, `execv_ok`,
  `schedular_cons`    the outcomes.
-/

namespace StarOS

/-- a clock after a tick -/
def CountDownClock.pred (c : CountDownClock) : CountDownClock := { c with countDown := c.countDown - 1 }

namespace Kernel

@[simp] theorem modify_procs (s : Kernel) (p : Nat) (f : Process → Process) :
    (s.modify p f).procs = fun q => if q = p then f (s.procs q) else s.procs q := rfl

/-! ## the timer tick -/

/-- the processes of `l` move from `blocking_queue` to `ready_queue`, in this order -/
def wakeAll (s : Kernel) (l : List Nat) : Kernel := { s with
  readyQueue := s.readyQueue ++ l
  blockingQueue := s.blockingQueue.diff l
  procs := fun q => if q ∈ l then { s.procs q with status := .ready } else s.procs q }

/-- the processes whose clocks run out at the next tick -/
def expiring (clocks : List CountDownClock) : List Nat :=
  (clocks.filter fun c => c.countDown = 1).map CountDownClock.process

def afterTick (s : Kernel) : Kernel := { s.wakeAll (expiring s.waitingSleepQueue) with
  countDown := s.countDown - 1
  waitingSleepQueue := (s.waitingSleepQueue.filter fun c => c.countDown > 1).map CountDownClock.pred }

theorem wakeAll_nil (s : Kernel) : s.wakeAll [] = s := by
  simp only [wakeAll, List.append_nil, List.diff_nil, List.not_mem_nil, if_false]

theorem wakeAll_cons (s : Kernel) (p : Nat) (l : List Nat) :
    (s.wakeAll [p]).wakeAll l = s.wakeAll (p :: l) := by
  have hprocs : ((s.wakeAll [p]).wakeAll l).procs = (s.wakeAll (p :: l)).procs := by
    funext q
    by_cases hq : q ∈ l <;> by_cases hp : q = p <;> simp [wakeAll, hq, hp]
  simp only [wakeAll] at hprocs ⊢
  rw [hprocs]
  simp only [List.append_assoc, List.singleton_append, List.diff_cons, List.diff_nil]

theorem wake_of_mem {s : Kernel} {p : Nat} (h : p ∈ s.blockingQueue) :
    s.wake p = .ok (s.wakeAll [p]) := by
  rw [wake, LinkedList.remove_of_mem h]
  show Except.ok _ = Except.ok _
  simp only [wakeAll, setStatus, modify, List.diff_cons, List.diff_nil, List.mem_singleton]

/-- the first pass wakes the processes of all clocks that reach zero -/
theorem forEach_countDownClock {clocks : List CountDownClock} {s : Kernel}
    (hn : (clocks.map CountDownClock.process).Nodup)
    (hb : ∀ c ∈ clocks, c.process ∈ s.blockingQueue) :
    LinkedList.forEach countDownClock s clocks
      = .ok (s.wakeAll (expiring clocks), clocks.map CountDownClock.pred) := by
  induction clocks generalizing s with
  | nil =>
    show Except.ok (s, []) = Except.ok (s.wakeAll [], [])
    rw [wakeAll_nil]
  | cons c cs ih =>
    rw [List.map_cons, List.nodup_cons] at hn
    by_cases hc : c.countDown = 1
    · have he : expiring (c :: cs) = c.process :: expiring cs := by simp [expiring, hc]
      have h0 : c.countDown - 1 = 0 := by omega
      have hf : countDownClock s c = .ok (s.wakeAll [c.process], c.pred) := by
        simp only [countDownClock, h0, if_true, wake_of_mem (hb c List.mem_cons_self)]
        simp only [CountDownClock.pred, h0]
        rfl
      have hb' : ∀ d ∈ cs, d.process ∈ (s.wakeAll [c.process]).blockingQueue := by
        intro d hd
        have hne : d.process ≠ c.process := fun e => hn.1 (e ▸ List.mem_map_of_mem hd)
        simp only [wakeAll, List.diff_cons, List.diff_nil]
        exact (List.mem_erase_of_ne hne).mpr (hb d (List.mem_cons_of_mem _ hd))
      rw [LinkedList.forEach, hf]
      show (LinkedList.forEach countDownClock (s.wakeAll [c.process]) cs).map _ = _
      rw [ih hn.2 hb', he, ← wakeAll_cons s c.process (expiring cs)]
      rfl
    · have he : expiring (c :: cs) = expiring cs := by simp [expiring, hc]
      have h0 : ¬ c.countDown - 1 = 0 := by omega
      have hf : countDownClock s c = .ok (s, c.pred) := by
        simp only [countDownClock, h0, if_false]
        rfl
      rw [LinkedList.forEach, hf]
      show (LinkedList.forEach countDownClock s cs).map _ = _
      rw [ih hn.2 (fun d hd => hb d (List.mem_cons_of_mem _ hd)), he]
      rfl

theorem tick_eq {s : Kernel} (hn : (s.waitingSleepQueue.map CountDownClock.process).Nodup)
    (hb : ∀ c ∈ s.waitingSleepQueue, c.process ∈ s.blockingQueue) : s.tick = .ok s.afterTick := by
  have hf := forEach_countDownClock (s := { s with countDown := s.countDown - 1 }) hn hb
  rw [tick, hf]
  show Except.ok _ = Except.ok _
  simp only [afterTick, wakeAll, List.filter_map]
  congr 2
  apply congrArg
  apply List.filter_congr
  intro c _
  simp only [Function.comp, CountDownClock.pred]
  congr 1
  apply propext
  omega

/-! ## the running process leaves the CPU -/

/-- the running process `p` is saved and taken off `running_queue`, and the scheduler runs -/
def offCpu (s : Kernel) (p : Nat) (tf : TrapFrame) : Kernel :=
  { s.modify p fun P => { P with context := saveContextFromTrapframe P.context tf } with
    runningQueue := s.runningQueue.erase p
    cr3 := s.kernelProc.pageDirectory
    currentControlFlow := .kernelThread
    cpu := trapret (restoreContextToTrapframe s.kernelProc tf) }

/-- off the CPU and into `ready_queue` -/
def preempt (s : Kernel) (p : Nat) (tf : TrapFrame) : Kernel :=
  { s.offCpu p tf with readyQueue := s.readyQueue ++ [p] }.setStatus p .ready

/-- off the CPU and into `blocking_queue` -/
def block (s : Kernel) (p : Nat) (tf : TrapFrame) : Kernel :=
  { s.offCpu p tf with blockingQueue := s.blockingQueue ++ [p], currentProcess := none }.setStatus p
    .blocking

theorem suspend_of_mem {s : Kernel} {p : Nat} (tf : TrapFrame) (h : p ∈ s.runningQueue) :
    s.suspend p tf = .ok { s.modify p fun P => { P with
      context := saveContextFromTrapframe P.context tf } with
        runningQueue := s.runningQueue.erase p } := by
  have hr : p ∈ (s.modify p fun P => { P with
    context := saveContextFromTrapframe P.context tf }).runningQueue := h
  rw [suspend, LinkedList.remove_of_mem hr]
  rfl

theorem current_of_some {s : Kernel} {p : Nat} (h : s.currentProcess = some p) : s.current = .ok p := by
  unfold current
  rw [h]

/-! ## the timer interrupt -/

/-- the branch of `interrupt_handler` for the vector of the timer -/
theorem trap_timer {s : Kernel} {t : Trap} (s' : Kernel) (tf : TrapFrame)
    (h : s.timerInterrupt (t.frame 0x30) = .ok (s', tf)) (hr : s'.returnToProcess = false) :
    s.trap 0x30 t = .ok { s' with cpu := trapret tf } := by
  have hi : interruptHandler s (t.frame 0x30) t.data t.cr2
      = (s.timerInterrupt (t.frame 0x30)).bind fun r => if r.1.returnToProcess then
          .ok ({ r.1 with currentControlFlow := .processThread, returnToProcess := false }, r.2)
        else .ok (r.1, r.2) := rfl
  rw [trap, hi, h]
  show Except.bind (if s'.returnToProcess = true then _ else _) _ = _
  rw [if_neg (by rw [hr]; exact Bool.false_ne_true)]
  rfl

theorem timer_kernel {s : Kernel} (t : Trap) (ht : s.tick = .ok s.afterTick)
    (hc : s.currentControlFlow ≠ .processThread) (hr : s.returnToProcess = false) :
    s.trap 0x30 t = .ok { s.afterTick with cpu := trapret (t.frame 0x30) } := by
  apply trap_timer s.afterTick (t.frame 0x30) _ hr
  rw [timerInterrupt, ht]
  show (if s.currentControlFlow ≠ .processThread then _ else _) = _
  rw [if_pos hc]
  rfl

theorem timer_user {s : Kernel} {p : Nat} (t : Trap) (ht : s.tick = .ok s.afterTick)
    (hc : s.currentControlFlow = .processThread) (hr : s.returnToProcess = false)
    (hp : s.currentProcess = some p) (hm : p ∈ s.runningQueue) :
    s.trap 0x30 t = .ok (s.afterTick.preempt p (t.frame 0x30)) := by
  have hm' : p ∈ s.afterTick.runningQueue := hm
  have hcur : s.afterTick.current = .ok p := current_of_some hp
  -- `iret` sets the registers only after the handler is done
  refine trap_timer { s.afterTick.preempt p (t.frame 0x30) with cpu := s.cpu }
    (restoreContextToTrapframe s.kernelProc (t.frame 0x30)) ?_ hr
  rw [timerInterrupt, ht]
  show (if s.currentControlFlow ≠ .processThread then _ else _) = _
  rw [if_neg (not_not_intro hc), hcur]
  show Except.bind (s.afterTick.suspend p (t.frame 0x30)) _ = _
  rw [suspend_of_mem _ hm']
  rfl

/-! ## the keyboard interrupt -/

/-- the keyboard has taken the byte; control returns to where it was -/
def typed (s : Kernel) (r : Response) (t : Trap) : Kernel := { s with
  keyboard := r.keyboard
  stores := s.stores ++ r.store.toList.map fun b => ⟨s.cr3, b.1, b.2⟩
  cpu := trapret (t.frame 0x31) }

/-- the `gets` of `p` is answered -/
def answer (s : Kernel) (p : Nat) : Kernel :=
  { (s.modify p fun P => { P with
      context := { P.context with eax := s.keyboard.gets.buffer } }).wakeAll [p] with
    keyboard := { s.keyboard with
      gets := { s.keyboard.gets with count := 0, alreadyCount := 0, buffer := 0 } }
    processWaitingGets := none }

theorem trap_keyboard {s : Kernel} {t : Trap} (s' : Kernel) (h : s.keyboardInterrupt t.data = .ok s')
    (hr : s'.returnToProcess = false) :
    s.trap 0x31 t = .ok { s' with cpu := trapret (t.frame 0x31) } := by
  have hi : interruptHandler s (t.frame 0x31) t.data t.cr2
      = ((s.keyboardInterrupt t.data).bind fun s => .ok (s, t.frame 0x31)).bind fun r =>
        if r.1.returnToProcess then
          .ok ({ r.1 with currentControlFlow := .processThread, returnToProcess := false }, r.2)
        else .ok (r.1, r.2) := rfl
  rw [trap, hi, h]
  show Except.bind (if s'.returnToProcess = true then _ else _) _ = _
  rw [if_neg (by rw [hr]; exact Bool.false_ne_true)]
  rfl

theorem trap_keyboard_error {s : Kernel} {t : Trap} {e : Fatal}
    (h : ps2KeyboardInterrupt s.keyboard t.data = .error e) : s.trap 0x31 t = .error e := by
  have hi : s.trap 0x31 t
      = (((s.keyboardInterrupt t.data).bind fun s => .ok (s, t.frame 0x31)).bind fun r =>
        if r.1.returnToProcess then
          .ok ({ r.1 with currentControlFlow := .processThread, returnToProcess := false }, r.2)
        else .ok (r.1, r.2)).bind fun r => .ok { r.1 with cpu := trapret r.2 } := rfl
  rw [hi, keyboardInterrupt, h]
  rfl

theorem keyboard_typed {s : Kernel} {t : Trap} {r : Response}
    (h : ps2KeyboardInterrupt s.keyboard t.data = .ok r) (hret : s.returnToProcess = false)
    (hg : r.keyboard.gets.enabled = true ∨ r.keyboard.gets.count = 0) :
    s.trap 0x31 t = .ok (s.typed r t) := by
  have hc : ¬ (!r.keyboard.gets.enabled && r.keyboard.gets.count != 0) = true := by
    rcases hg with hg | hg <;> simp [hg]
  refine trap_keyboard { s.typed r t with cpu := s.cpu } ?_ hret
  rw [keyboardInterrupt, h]
  show (if (!r.keyboard.gets.enabled && r.keyboard.gets.count != 0) = true then _ else _) = _
  rw [if_neg hc]
  rfl

theorem keyboard_answer {s : Kernel} {t : Trap} {r : Response} {p : Nat}
    (h : ps2KeyboardInterrupt s.keyboard t.data = .ok r) (hret : s.returnToProcess = false)
    (he : r.keyboard.gets.enabled = false) (hn : r.keyboard.gets.count ≠ 0)
    (hw : s.processWaitingGets = some p) (hp : p ∈ s.blockingQueue) :
    s.trap 0x31 t = .ok ((s.typed r t).answer p) := by
  have hc : (!r.keyboard.gets.enabled && r.keyboard.gets.count != 0) = true := by
    simp [he, hn]
  refine trap_keyboard { (s.typed r t).answer p with cpu := s.cpu } ?_ hret
  rw [keyboardInterrupt, h]
  show (if (!r.keyboard.gets.enabled && r.keyboard.gets.count != 0) = true then _ else _) = _
  rw [if_pos hc]
  simp only [hw]
  show Except.bind (wake ({ s.typed r t with cpu := s.cpu, processWaitingGets := some p }.modify p
    fun P => { P with context := { P.context with eax := r.keyboard.gets.buffer } }) p) _ = _
  have hp' : p ∈ ({ s.typed r t with cpu := s.cpu, processWaitingGets := some p }.modify p
    fun P => { P with context := { P.context with eax := r.keyboard.gets.buffer } }).blockingQueue := hp
  rw [wake_of_mem hp']
  rfl

/-! ## system calls -/

/-- `gets` blocks the process and registers it as the one that waits -/
def getsCalled (s : Kernel) (p : Nat) (t : Trap) : Kernel := { s.block p (t.frame 32) with
  keyboard := { s.keyboard with gets := ⟨true, t.regs.ecx, 0, t.regs.ebx⟩ }
  processWaitingGets := some p }

/-- `sleep` blocks the process and sets a clock for it -/
def sleepCalled (s : Kernel) (p : Nat) (t : Trap) : Kernel := { s.block p (t.frame 32) with
  waitingSleepQueue := s.waitingSleepQueue ++ [⟨ticksPerSecond * t.regs.ebx.toNat, p⟩] }

theorem trap_syscall {s : Kernel} {t : Trap} :
    s.trap 32 t = (systemEntry s (t.frame 32)).bind fun r => .ok { r.1 with cpu := trapret r.2 } := rfl

/-- the pointers that a system call hands to `copy_process_mapping` -/
def copiedPointers (eax ebx edx : UInt32) : List UInt32 :=
  match eax.toNat with
  | 2 => [ebx]
  | 3 => [ebx, edx]
  | 4 => [ebx]
  | _ => []

/-- what `copy_process_mapping` does to the page tables: the entry for `start` of the directory
`directory` goes into the directory `kernel` -/
def copyEntry (kernel directory : Nat) (paging : Paging) (start : UInt32) : Paging :=
  paging.setEntry kernel (dirIndex start.toNat) (paging.entry directory (dirIndex start.toNat))

/-- the page tables after a system call of `p` -/
def copied (s : Kernel) (p : Nat) (eax ebx edx : UInt32) : Paging :=
  (copiedPointers eax ebx edx).foldl
    (copyEntry s.kernelPagingDirectory (s.procs p).context.pageDirectory) s.paging

/-- the copied directory entry, or the halt for a size above 4MB -/
theorem copyProcessMapping_cases {s : Kernel} {p : Nat} (hp : s.currentProcess = some p)
    (start count : UInt32) :
    copyProcessMapping s start count = .ok { s with
      paging := copyEntry s.kernelPagingDirectory (s.procs p).context.pageDirectory s.paging start } ∨
    copyProcessMapping s start count = .error (.countTooLarge count.toNat) := by
  rw [copyProcessMapping, current_of_some hp]
  by_cases h : count.toNat > 1024 * 1024 * 4
  · right
    exact if_pos h
  · left
    exact if_neg h

theorem sleep_eq {s : Kernel} {p : Nat} {t : Trap} (hc : s.currentControlFlow = .processThread)
    (hp : s.currentProcess = some p) (hm : p ∈ s.runningQueue) (he : t.regs.eax = 5) :
    s.trap 32 t = .ok (s.sleepCalled p t) := by
  have h5 : (t.frame 32).eax.toNat = 5 := congrArg UInt32.toNat he
  rw [trap_syscall, systemEntry, h5]
  show Except.bind (if s.currentControlFlow ≠ .processThread then _ else _) _ = _
  rw [if_neg (not_not_intro hc), current_of_some hp]
  show Except.bind (Except.bind (s.suspend p (t.frame 32)) _) _ = _
  rw [suspend_of_mem _ hm]
  rfl

theorem gets_eq {s : Kernel} {p : Nat} {t : Trap} (hc : s.currentControlFlow = .processThread)
    (hp : s.currentProcess = some p) (hm : p ∈ s.runningQueue) (he : t.regs.eax = 4) :
    s.trap 32 t = .ok ({ s with paging := s.copied p t.regs.eax t.regs.ebx t.regs.edx }.getsCalled p t) ∨
    s.trap 32 t = .error (.countTooLarge t.regs.ecx.toNat) := by
  have h4 : (t.frame 32).eax.toNat = 4 := congrArg UInt32.toNat he
  have hcopied : s.copied p t.regs.eax t.regs.ebx t.regs.edx = copyEntry s.kernelPagingDirectory
      (s.procs p).context.pageDirectory s.paging t.regs.ebx := by
    rw [copied, he]
    rfl
  rw [trap_syscall, systemEntry, h4, hcopied]
  rcases copyProcessMapping_cases hp t.regs.ebx t.regs.ecx with h | h
  · left
    revert h
    generalize copyEntry _ _ _ _ = pg
    intro h
    have hcur : { s with paging := pg }.current = .ok p := current_of_some hp
    have hm' : p ∈ { s with paging := pg }.runningQueue := hm
    show Except.bind (Except.bind (copyProcessMapping s t.regs.ebx t.regs.ecx) _) _ = _
    rw [h]
    show Except.bind (Except.bind { s with paging := pg }.current _) _ = _
    rw [hcur]
    show Except.bind (if s.currentControlFlow ≠ .processThread then _ else _) _ = _
    rw [if_neg (not_not_intro hc)]
    show Except.bind (Except.bind ({ s with paging := pg }.suspend p (t.frame 32)) _) _ = _
    rw [suspend_of_mem _ hm']
    rfl
  · right
    show Except.bind (Except.bind (copyProcessMapping s t.regs.ebx t.regs.ecx) _) _ = _
    rw [h]
    rfl

theorem systemEntry_other {s : Kernel} {p : Nat} (tf : TrapFrame) (hp : s.currentProcess = some p)
    (h4 : tf.eax ≠ 4) (h5 : tf.eax ≠ 5) :
    (∃ eax, systemEntry s tf
      = .ok ({ s with paging := s.copied p tf.eax tf.ebx tf.edx }, { tf with eax := eax })) ∨
    (∃ n, systemEntry s tf = .error (.countTooLarge n)) ∨
    systemEntry s tf = .error .syscallNotSupported := by
  rw [systemEntry, copied, copiedPointers]
  split
  case h_1 h => exact Or.inl ⟨tf.eax, by rw [h]; rfl⟩
  case h_2 h => exact Or.inl ⟨tf.ebx + tf.ecx, by rw [h]; rfl⟩
  case h_3 h =>
    rw [h]
    rcases copyProcessMapping_cases hp tf.ebx tf.ecx with h | h <;> rw [h]
    · exact Or.inl ⟨tf.eax, rfl⟩
    · exact Or.inr (Or.inl ⟨_, rfl⟩)
  case h_4 h =>
    rw [h]
    rcases copyProcessMapping_cases hp tf.ebx tf.ecx with h | h <;> rw [h]
    · have hp' : { s with
        paging := copyEntry s.kernelPagingDirectory (s.procs p).context.pageDirectory s.paging
          tf.ebx }.currentProcess = some p := hp
      show (∃ eax, Except.bind (copyProcessMapping _ tf.edx (1024 * 4)) _ = _) ∨
        (∃ n, Except.bind (copyProcessMapping _ tf.edx (1024 * 4)) _ = _) ∨ _
      rcases copyProcessMapping_cases hp' tf.edx (1024 * 4) with h' | h' <;> rw [h']
      · exact Or.inl ⟨tf.eax, rfl⟩
      · exact Or.inr (Or.inl ⟨_, rfl⟩)
    · exact Or.inr (Or.inl ⟨_, rfl⟩)
  case h_5 h => exact absurd (UInt32.toNat_inj.mp h) h4
  case h_6 h => exact absurd (UInt32.toNat_inj.mp h) h5
  case h_7 => exact Or.inr (Or.inr rfl)

/-- the other system calls change the page tables and `eax` at most -/
theorem syscall_other {s : Kernel} {p : Nat} {t : Trap} (hp : s.currentProcess = some p)
    (h4 : t.regs.eax ≠ 4) (h5 : t.regs.eax ≠ 5) :
    (∃ eax, s.trap 32 t = .ok { s with
      paging := s.copied p t.regs.eax t.regs.ebx t.regs.edx
      cpu := trapret { t.frame 32 with eax := eax } }) ∨
    (∃ n, s.trap 32 t = .error (.countTooLarge n)) ∨ s.trap 32 t = .error .syscallNotSupported := by
  rw [trap_syscall]
  rcases systemEntry_other (t.frame 32) hp h4 h5 with ⟨eax, h⟩ | ⟨n, h⟩ | h <;> rw [h]
  · exact Or.inl ⟨eax, rfl⟩
  · exact Or.inr (Or.inl ⟨n, rfl⟩)
  · exact Or.inr (Or.inr rfl)

/-! ## `execv` and the scheduler -/

theorem selector_user (index : Nat) : descriptorSelector index true 3 &&& 3 = 3 := by
  apply UInt32.toNat_inj.mp
  have e : (descriptorSelector index true 3).toNat = (8 * index + 3) % 2^16 := descriptorSelector_toNat index true 3
  rw [UInt32.toNat_and, e]
  show ((8 * index + 3) % 2^16) &&& (2^2 - 1) = 3
  rw [Nat.and_two_pow_sub_one_eq_mod]
  omega

/-- a new process, in ring 3, at the end of `ready_queue` -/
def enqueued (s : Kernel) (P : Process) (gdt : List SegmentDescriptor) (paging : Paging) : Kernel :=
  { s with
    procs := fun q => if q = s.created then P else s.procs q
    created := s.created + 1
    allocatedProcessId := s.allocatedProcessId + 1
    readyQueue := s.readyQueue ++ [s.created]
    gdt := gdt
    paging := paging }

theorem execv_cases (s : Kernel) (image : Image) :
    (∃ n, execv s image = .error (.gdtExceedsLimit n)) ∨
    ∃ P gdt, P.status = .ready ∧ P.context.user ∧
      execv s image = .ok (s.enqueued P gdt image.paging) := by
  have hadd : ∀ (gdt : List SegmentDescriptor) d, addToGDT gdt d = .error (.gdtExceedsLimit gdt.length) ∨
      addToGDT gdt d = .ok (gdt.length, gdt ++ [d]) := by
    intro gdt d
    rw [addToGDT]
    split
    · exact Or.inl rfl
    · exact Or.inr rfl
  rw [execv]
  rcases hadd s.gdt (.new 0 0xfffff 0xfa 0xc) with h | h <;> rw [h]
  · exact Or.inl ⟨_, rfl⟩
  · show (∃ n, Except.bind (addToGDT (s.gdt ++ [.new 0 0xfffff 0xfa 0xc]) (.new 0 0xfffff 0xf2 0xc)) _ = _) ∨
      ∃ P gdt, _ ∧ _ ∧ Except.bind (addToGDT (s.gdt ++ [.new 0 0xfffff 0xfa 0xc])
        (.new 0 0xfffff 0xf2 0xc)) _ = _
    rcases hadd (s.gdt ++ [.new 0 0xfffff 0xfa 0xc]) (.new 0 0xfffff 0xf2 0xc) with h | h <;> rw [h]
    · exact Or.inl ⟨_, rfl⟩
    · right
      refine ⟨_, _, ?_, ?_, rfl⟩
      · rfl
      · exact selector_user _

/-- `p`, the first of `ready_queue`, runs -/
def dispatched (s : Kernel) (p : Nat) (ready : List Nat) (kernel : Regs) (flags : UInt32) : Kernel :=
  switchToProcess ({ s with
    readyQueue := ready
    runningQueue := s.runningQueue ++ [p]
    currentProcess := some p }.setStatus p .running) p kernel flags

theorem schedular_nil {s : Kernel} (kernel : Regs) (flags : UInt32) (h : s.readyQueue = []) :
    schedular s kernel flags = .ok s := by
  rw [schedular, h]
  rfl

theorem schedular_cons {s : Kernel} {p : Nat} {ready : List Nat} (kernel : Regs) (flags : UInt32)
    (h : s.readyQueue = p :: ready) :
    schedular s kernel flags = .ok (s.dispatched p ready kernel flags) := by
  rw [schedular, h]
  rfl

end Kernel
end StarOS
