import StarOS.Kernel.Queues

/-!
# Timer interrupts between the statements of the scheduler

`schedular` and `switch_to_process` statement by statement, with interrupts between any two of them.

* `Statement`, `Thread.exec`, `Thread.step`   the kernel's thread: where it is, its locals, and what
                     its next statement does;
* `Effect`           what an interrupt does that finds the scheduler running; it commutes with every
                     statement (`exec_foldl_apply`), so
* `Thread.Inv`       in the middle of a dispatch the kernel is in the state the statements executed so
                     far make of a state between two atomic steps;
* `preempts_user_iff`   the timer preempts user code only, exactly if no timer interrupt arrives after
                     `Current_control_flow = Process_thread` and before `iret`.
-/

namespace StarOS
open Lib

/-- a statement between `pop_front` and `iret` -/
inductive Statement where
  | setRunning | pushBack | setCurrent | debugSwitching
  | saveContext | saveEsp | saveEbp | saveEip | setEsp0 | setKernelProc
  | loadDs | loadEs | loadFs | loadGs
  | pushSs | pushEsp | pushFlags | pushCs | pushEip
  | loadCr3 | debugEntering | setControlFlow
  | loadEax | loadEbx | loadEcx | loadEdx | loadEsi | loadEdi | loadEbp
deriving DecidableEq

open Statement in
/-- the rest of the branch of `schedular`, and `switch_to_process` up to `iret` -/
def statements : List Statement :=
  [setRunning, pushBack, setCurrent, debugSwitching,
    saveContext, saveEsp, saveEbp, saveEip, setEsp0, setKernelProc,
    loadDs, loadEs, loadFs, loadGs, pushSs, pushEsp, pushFlags, pushCs, pushEip,
    loadCr3, debugEntering, setControlFlow,
    loadEax, loadEbx, loadEcx, loadEdx, loadEsi, loadEdi, loadEbp]

/-- where the kernel's thread is: before the scheduler starts, at a statement of its loop, after the
first `n` of `statements` (after all of them: at `iret`), in ring 3, or back from there -/
inductive Pc where
  | main | test | popFront | dispatch (n : Nat) | user | restoreHere | usleep | waiting
deriving DecidableEq

/-- the registers at the statements that save them: those `save_context` pushes, then `esp` and `ebp`
of `switch_to_process`, the address of `scheduler_restore_here`, and the flags of `pushf` -/
structure SwitchRegs where
  saved : Regs
  esp : UInt32
  ebp : UInt32
  restoreHere : UInt32
  flags : UInt32

structure Thread where
  kernel : Kernel
  pc : Pc
  /-- the locals `p` and `kernel_context`, and the registers made ready for `iret` -/
  p : Nat
  found : SwitchRegs
  kernelContext : Context
  regs : Regs

inductive ThreadAction where
  | run (found : SwitchRegs)
  | execv (image : Image)
  | timer (t : Trap)
  | keyboard (t : Trap)
  | syscall (t : Trap)

namespace Thread

def exec (f : Thread) (st : Statement) : Thread :=
  let cxt := (f.kernel.procs f.p).context
  match st with
  | .setRunning => { f with kernel := f.kernel.setStatus f.p .running }
  | .pushBack => { f with kernel := { f.kernel with runningQueue := f.kernel.runningQueue ++ [f.p] } }
  | .setCurrent => { f with kernel := { f.kernel with currentProcess := some f.p } }
  | .debugSwitching => f
  | .saveContext =>
    { f with kernelContext := { f.found.saved with eax := 0, eip := 0, pageDirectory := f.kernel.cr3 } }
  | .saveEsp => { f with kernelContext := { f.kernelContext with esp := f.found.esp } }
  | .saveEbp => { f with kernelContext := { f.kernelContext with ebp := f.found.ebp } }
  | .saveEip => { f with kernelContext := { f.kernelContext with eip := f.found.restoreHere } }
  | .setEsp0 => { f with kernel := { f.kernel with tssEsp0 := f.kernelContext.esp } }
  | .setKernelProc => { f with kernel := { f.kernel with kernelProc := f.kernelContext } }
  | .loadDs => { f with regs := { f.regs with ds := cxt.ds } }
  | .loadEs => { f with regs := { f.regs with es := cxt.es } }
  | .loadFs => { f with regs := { f.regs with fs := cxt.fs } }
  | .loadGs => { f with regs := { f.regs with gs := cxt.gs } }
  | .pushSs => { f with regs := { f.regs with ss := cxt.ss } }
  | .pushEsp => { f with regs := { f.regs with esp := cxt.esp } }
  | .pushFlags => { f with regs := { f.regs with eflags := f.found.flags } }
  | .pushCs => { f with regs := { f.regs with cs := cxt.cs } }
  | .pushEip => { f with regs := { f.regs with eip := cxt.eip } }
  | .loadCr3 => { f with kernel := { f.kernel with cr3 := cxt.pageDirectory } }
  | .debugEntering => f
  | .setControlFlow => { f with kernel := { f.kernel with currentControlFlow := .processThread } }
  | .loadEax => { f with regs := { f.regs with eax := cxt.eax } }
  | .loadEbx => { f with regs := { f.regs with ebx := cxt.ebx } }
  | .loadEcx => { f with regs := { f.regs with ecx := cxt.ecx } }
  | .loadEdx => { f with regs := { f.regs with edx := cxt.edx } }
  | .loadEsi => { f with regs := { f.regs with esi := cxt.esi } }
  | .loadEdi => { f with regs := { f.regs with edi := cxt.edi } }
  | .loadEbp => { f with regs := { f.regs with ebp := cxt.ebp } }

/-- the next statement of the kernel's thread -/
def run (f : Thread) (found : SwitchRegs) : Except Fatal Thread :=
  match f.pc with
  | .main => .ok { f with pc := .test }
  | .test => .ok { f with pc := if f.kernel.readyQueue.isEmpty then .usleep else .popFront }
  | .popFront => (LinkedList.popFront f.kernel.readyQueue).map fun r =>
      { f with
        kernel := { f.kernel with readyQueue := r.2 }, pc := .dispatch 0, p := r.1, found := found }
  | .dispatch n =>
    match statements[n]? with
    | some st => .ok { f.exec st with pc := .dispatch (n + 1) }
    | none => .ok { f with kernel := { f.kernel with cpu := f.regs }, pc := .user }
  | .user => .ok f
  | .restoreHere =>
    .ok { f with kernel := { f.kernel with currentControlFlow := .kernelThread }, pc := .usleep }
  -- `usleep(1000)` waits for one tick
  | .usleep => .ok { f with kernel := { f.kernel with countDown := 1 }, pc := .waiting }
  | .waiting => .ok { f with pc := if f.kernel.countDown > 0 then .waiting else .test }

/-- where an interrupt returns to: the handler goes back to the scheduler through `Kernel_proc` -/
def resume (f : Thread) (s : Kernel) : Thread := { f with
  kernel := s
  pc := if f.kernel.currentControlFlow = .processThread ∧ s.currentControlFlow = .kernelThread
    then .restoreHere else f.pc }

def step (f : Thread) : ThreadAction → Except Fatal Thread
  | .run found => f.run found
  | .execv image => (StarOS.execv f.kernel image).map fun s => { f with kernel := s }
  | .timer t => (f.kernel.trap 0x30 t).map f.resume
  | .keyboard t => (f.kernel.trap 0x31 t).map f.resume
  | .syscall t => (f.kernel.trap 32 t).map f.resume

/-- processes are created before the scheduler starts, and system calls come from ring 3 -/
def Enabled (f : Thread) : ThreadAction → Prop
  | .run found => f.pc ≠ .user ∧ ¬ found.saved.user
  | .execv _ => f.pc = .main
  | .timer t => t.regs.user ↔ f.kernel.UserMode
  | .keyboard t => t.regs.user ↔ f.kernel.UserMode
  | .syscall t => t.regs.user ∧ f.kernel.UserMode

def Step (f : Thread) (a : ThreadAction) (g : Thread) : Prop := f.Enabled a ∧ f.step a = .ok g

def boot (b : BootState) : Thread :=
  ⟨.boot b, .main, 0, ⟨b.cpu, 0, 0, 0, 0⟩, { Regs.zero with pageDirectory := 0 }, Regs.zero⟩

/-- if the step is a timer interrupt that takes the preemption path, it came from ring 3, `old_esp`
and `old_ss` were pushed, and what it saves into `CURRENT_PROCESS` are the registers of the process
that runs -/
def PreemptsUser (f : Thread) (a : ThreadAction) : Prop :=
  ∀ t, a = .timer t → f.Enabled a → f.kernel.currentControlFlow = .processThread →
    (t.frame 0x30).oldCs &&& 3 = 3 ∧ (t.frame 0x30).oldEsp = t.regs.esp ∧
    (t.frame 0x30).oldSs = t.regs.ss ∧
    ∀ g, f.Step a g → f.kernel.currentProcess = some f.p ∧
      (g.kernel.procs f.p).context.toRegs = t.regs

/-- the statements before `iret` that follow `Current_control_flow = Process_thread` -/
def InWindow (f : Thread) : Prop := ∃ n, f.pc = .dispatch n ∧ .setControlFlow ∈ statements.take n

/-- no timer interrupt arrives in the window -/
def OutsideWindow (f : Thread) (a : ThreadAction) : Prop :=
  ∀ t, a = .timer t → f.Enabled a → ¬ f.InWindow

/-! ## statements and interrupts -/

/-- the parts of the state that an interrupt reads and no statement writes -/
def frameOf (s : Kernel) :=
  (s.waitingSleepQueue, s.blockingQueue, s.keyboard, s.processWaitingGets, s.returnToProcess, s.cpu)

theorem exec_frame (f : Thread) (st : Statement) : frameOf (f.exec st).kernel = frameOf f.kernel := by
  cases st <;> rfl

theorem exec_p (f : Thread) (st : Statement) : (f.exec st).p = f.p := by
  cases st <;> rfl

theorem exec_found (f : Thread) (st : Statement) : (f.exec st).found = f.found := by
  cases st <;> rfl

theorem exec_pc (f : Thread) (st : Statement) (pc : Pc) :
    { f with pc := pc }.exec st = { f.exec st with pc := pc } := by
  cases st <;> rfl

theorem exec_flow (f : Thread) (st : Statement) : (f.exec st).kernel.currentControlFlow
    = if st = .setControlFlow then .processThread else f.kernel.currentControlFlow := by
  cases st <;> rfl

theorem foldl_frame (sts : List Statement) (f : Thread) :
    frameOf (sts.foldl exec f).kernel = frameOf f.kernel := by
  induction sts generalizing f with
  | nil => rfl
  | cons st sts ih => exact (ih (f.exec st)).trans (exec_frame f st)

theorem foldl_p (sts : List Statement) (f : Thread) : (sts.foldl exec f).p = f.p := by
  induction sts generalizing f with
  | nil => rfl
  | cons st sts ih => exact (ih (f.exec st)).trans (exec_p f st)

theorem foldl_found (sts : List Statement) (f : Thread) : (sts.foldl exec f).found = f.found := by
  induction sts generalizing f with
  | nil => rfl
  | cons st sts ih => exact (ih (f.exec st)).trans (exec_found f st)

theorem foldl_flow (sts : List Statement) (f : Thread) :
    (sts.foldl exec f).kernel.currentControlFlow
      = if .setControlFlow ∈ sts then .processThread else f.kernel.currentControlFlow := by
  induction sts generalizing f with
  | nil => rfl
  | cons st sts ih =>
    rw [List.foldl_cons, ih, exec_flow]
    by_cases h : st = .setControlFlow
    · rw [if_pos h, ite_self, if_pos (h ▸ List.mem_cons_self)]
    · rw [if_neg h]
      have e : .setControlFlow ∈ sts ↔ .setControlFlow ∈ st :: sts := by
        rw [List.mem_cons]
        exact ⟨Or.inr, fun hm => hm.resolve_left fun e => h e.symm⟩
      simp only [e]

/-- what an interrupt does to the kernel when the scheduler runs -/
structure Effect where
  woken : List Nat
  blocking : List Nat
  change : Nat → Process → Process
  countDown : Int
  clocks : List CountDownClock
  keyboard : Keyboard
  waiting : Option Nat
  stores : List UserStore
  cpu : Regs

def Effect.apply (e : Effect) (s : Kernel) : Kernel := { s with
  readyQueue := s.readyQueue ++ e.woken
  blockingQueue := e.blocking
  procs := fun q => e.change q (s.procs q)
  countDown := e.countDown
  waitingSleepQueue := e.clocks
  keyboard := e.keyboard
  processWaitingGets := e.waiting
  stores := e.stores
  cpu := e.cpu }

/-- the interrupt before the statement or after it -/
theorem exec_apply {e : Effect} {f : Thread} (hp : ∀ P, e.change f.p P = P) (st : Statement) :
    { f with kernel := e.apply f.kernel }.exec st
      = { f.exec st with kernel := e.apply (f.exec st).kernel } := by
  have hcxt : ((e.apply f.kernel).procs f.p).context = (f.kernel.procs f.p).context := by
    show (e.change f.p (f.kernel.procs f.p)).context = _
    rw [hp]
  cases st with
  | setRunning =>
    have hprocs : ((e.apply f.kernel).setStatus f.p .running).procs
        = (e.apply (f.kernel.setStatus f.p .running)).procs := by
      funext q
      by_cases hq : q = f.p
      · subst hq
        simp [Effect.apply, Kernel.setStatus, hp]
      · simp [Effect.apply, Kernel.setStatus, hq]
    show { f with kernel := { e.apply f.kernel with
      procs := ((e.apply f.kernel).setStatus f.p .running).procs } } = _
    rw [hprocs]
    rfl
  | _ => simp only [exec, hcxt] <;> rfl

theorem exec_foldl_apply {e : Effect} {f : Thread} (hp : ∀ P, e.change f.p P = P)
    (sts : List Statement) :
    sts.foldl exec { f with kernel := e.apply f.kernel }
      = { sts.foldl exec f with kernel := e.apply (sts.foldl exec f).kernel } := by
  induction sts generalizing f with
  | nil => rfl
  | cons st sts ih =>
    rw [List.foldl_cons, exec_apply hp, List.foldl_cons]
    exact ih (f := f.exec st) (by rw [exec_p]; exact hp)

/-! ## interrupts that find the scheduler running -/

theorem inv_of_fields {s : Kernel} (hi : s.Inv) (n : Int) (stores : List UserStore) :
    { s with countDown := n, stores := stores }.Inv :=
  { hi with placed := ⟨hi.placed.perm, hi.placed.ready, hi.placed.running, hi.placed.blocking⟩ }

/-- the timer, for a kernel `k` that differs from `s` in what the statements write -/
theorem timer_effect {s k k' : Kernel} {t : Trap} (hi : s.Inv) (hu : ¬ s.UserMode)
    (hk : frameOf k = frameOf s) (hflow : k.currentControlFlow ≠ .processThread) (ht : ¬ t.regs.user)
    (htrap : k.trap 0x30 t = .ok k') :
    ∃ e : Effect, k' = e.apply k ∧ (e.apply s).Inv ∧ ¬ (e.apply s).UserMode ∧
      ∀ p ∈ s.readyQueue, ∀ P, e.change p P = P := by
  simp only [frameOf, Prod.mk.injEq] at hk
  obtain ⟨hclocks, hblocking, hkeyboard, hwaiting, hreturn, hcpu⟩ := hk
  have htick : k.tick = .ok k.afterTick :=
    Kernel.tick_eq (hclocks ▸ hi.clocks_nodup) (hclocks ▸ hblocking ▸ hi.clocks_blocked)
  have hk' := Except.ok.inj (htrap.symm.trans
    (Kernel.timer_kernel t htick hflow (hreturn.trans hi.no_return)))
  let e : Effect := {
    woken := Kernel.expiring s.waitingSleepQueue
    blocking := s.afterTick.blockingQueue
    change := fun q P => if q ∈ Kernel.expiring s.waitingSleepQueue then { P with status := .ready } else P
    countDown := k.countDown - 1
    clocks := s.afterTick.waitingSleepQueue
    keyboard := k.keyboard
    waiting := k.processWaitingGets
    stores := k.stores
    cpu := trapret (t.frame 0x30) }
  refine ⟨e, ?_, ?_, ht, fun p hp P => if_neg fun hex => ?_⟩
  · rw [hk']
    simp only [e, Effect.apply, Kernel.afterTick, Kernel.wakeAll, hclocks, hblocking]
  · have ho := (Kernel.Outcome.ticked (s := s) t hu ht).inv hi
    have hi' := inv_of_fields ho (k.countDown - 1) k.stores
    have es : e.apply s = { { s.afterTick with cpu := trapret (t.frame 0x30) } with
        countDown := k.countDown - 1, stores := k.stores } := by
      simp only [e, Effect.apply, Kernel.afterTick, Kernel.wakeAll, hkeyboard, hwaiting]
    rw [es]
    exact hi'
  · obtain ⟨c, hc, rfl⟩ := List.mem_map.mp ((Kernel.expiring_sublist _).subset hex)
    exact hi.placed.not_blocking_of_ready hp (hi.clocks_blocked c hc)

/-- the keyboard -/
theorem keyboard_effect {s k k' : Kernel} {t : Trap} (hi : s.Inv) (hu : ¬ s.UserMode)
    (hk : frameOf k = frameOf s) (ht : ¬ t.regs.user) (htrap : k.trap 0x31 t = .ok k') :
    ∃ e : Effect, k' = e.apply k ∧ (e.apply s).Inv ∧ ¬ (e.apply s).UserMode ∧
      ∀ p ∈ s.readyQueue, ∀ P, e.change p P = P := by
  simp only [frameOf, Prod.mk.injEq] at hk
  obtain ⟨hclocks, hblocking, hkeyboard, hwaiting, hreturn, hcpu⟩ := hk
  have hret : k.returnToProcess = false := hreturn.trans hi.no_return
  have hmode : t.regs.user ↔ s.UserMode := iff_of_false ht hu
  cases h : ps2KeyboardInterrupt s.keyboard t.data with
  | error er =>
    rw [Kernel.trap_keyboard_error (hkeyboard ▸ h)] at htrap
    cases htrap
  | ok r =>
    obtain ⟨hcount, -, hoff⟩ := interrupt_gets h
    let e : Effect := {
      woken := []
      blocking := s.blockingQueue
      change := fun _ P => P
      countDown := k.countDown
      clocks := s.waitingSleepQueue
      keyboard := r.keyboard
      waiting := s.processWaitingGets
      stores := (k.typed r t).stores
      cpu := trapret (t.frame 0x31) }
    have htyped : k.typed r t = e.apply k := by
      simp only [e, Effect.apply, Kernel.typed, List.append_nil, ← hblocking, ← hclocks, ← hwaiting]
    have hes : e.apply s = { s.typed r t with countDown := k.countDown, stores := (k.typed r t).stores } := by
      simp only [e, Effect.apply, Kernel.typed, List.append_nil]
    by_cases hg : r.keyboard.gets.enabled = true ∨ r.keyboard.gets.count = 0
    · have hk' := Except.ok.inj (htrap.symm.trans (Kernel.keyboard_typed (hkeyboard ▸ h) hret hg))
      refine ⟨e, hk'.trans htyped, ?_, ht, fun _ _ _ => rfl⟩
      rw [hes]
      exact inv_of_fields (Kernel.inv_typed hi h hmode hg) _ _
    · obtain ⟨he, hn⟩ := not_or.mp hg
      have he := Bool.eq_false_iff.mpr he
      have hon : s.keyboard.gets.enabled = true := by
        by_contra hf
        exact hn (hcount.trans (hi.idle (Bool.eq_false_iff.mpr hf)))
      obtain ⟨q, hw, hb, hc⟩ := hi.waiter hon
      have hk' := Except.ok.inj (htrap.symm.trans (Kernel.keyboard_answer (hkeyboard ▸ h) hret he hn
        (hwaiting.trans hw) (hblocking ▸ hb)))
      let e' : Effect := { e with
        woken := [q]
        blocking := s.blockingQueue.diff [q]
        change := fun p P => if p = q then
          { P with status := .ready, context := { P.context with eax := r.keyboard.gets.buffer } } else P
        keyboard := { r.keyboard with
          gets := { r.keyboard.gets with count := 0, alreadyCount := 0, buffer := 0 } }
        waiting := none }
      have hanswer : ∀ k₀ : Kernel, k₀.waitingSleepQueue = s.waitingSleepQueue →
          k₀.blockingQueue = s.blockingQueue →
          (k₀.typed r t).answer q = { e'.apply k₀ with
            countDown := k₀.countDown, stores := (k₀.typed r t).stores } := by
        intro k₀ h1 h2
        have hprocs : ((k₀.typed r t).answer q).procs = (e'.apply k₀).procs := by
          funext p
          by_cases hp : p = q <;> simp [e', Effect.apply, Kernel.answer, Kernel.typed, Kernel.wakeAll, hp]
        show { (k₀.typed r t).answer q with procs := ((k₀.typed r t).answer q).procs } = _
        rw [hprocs]
        simp only [e', e, Effect.apply, Kernel.answer, Kernel.typed, Kernel.wakeAll, Kernel.modify, h1, h2]
      refine ⟨e', hk'.trans (hanswer k hclocks hblocking), ?_, ht, fun p hp P => if_neg fun hpq => ?_⟩
      · have hs := inv_of_fields (Kernel.inv_answer hi hmode he hb hc) k.countDown (k.typed r t).stores
        rw [hanswer s rfl rfl] at hs
        exact hs
      · exact hi.placed.not_blocking_of_ready hp (hpq ▸ hb)

/-! ## the invariant -/

/-- `f` is the thread `g` after the first `n` statements, and `g` has just taken the first process of
`ready_queue` in a state between two atomic steps -/
structure Dispatching (f : Thread) (n : Nat) : Prop where
  bound : n ≤ statements.length
  ring0 : ¬ f.found.saved.user
  started : ∃ (s : Kernel) (ready : List Nat) (g : Thread), s.Inv ∧ ¬ s.UserMode ∧
    s.readyQueue = g.p :: ready ∧ g.kernel = { s with readyQueue := ready } ∧
    f = { (statements.take n).foldl exec g with pc := .dispatch n }

inductive Inv (f : Thread) : Prop where
  | kernel (kernel : f.kernel.Inv) (mode : ¬ f.kernel.UserMode) (user : f.pc ≠ .user)
      (dispatch : ∀ n, f.pc ≠ .dispatch n) (front : f.pc = .popFront → f.kernel.readyQueue ≠ [])
  | dispatch (n : Nat) (pc : f.pc = .dispatch n) (dispatching : f.Dispatching n)
  | user (kernel : f.kernel.Inv) (mode : f.kernel.UserMode) (pc : f.pc = .user)
      (current : f.kernel.currentProcess = some f.p)

theorem inv_boot (b : BootState) : (boot b).Inv :=
  .kernel (Kernel.inv_boot b) b.ring0 (fun h => by cases h) (fun n h => by cases h) (fun h => by cases h)

section
variable {f : Thread}

theorem Dispatching.flow {n : Nat} (hd : f.Dispatching n) : f.kernel.currentControlFlow
    = if .setControlFlow ∈ statements.take n then .processThread else .kernelThread := by
  obtain ⟨s, ready, g, hi, hu, -, hg, hf⟩ := hd.started
  have hgf : g.kernel.currentControlFlow = .kernelThread := by
    rw [hg]
    exact (hi.kernel hu).1
  rw [hf, ← hgf]
  exact foldl_flow _ g

theorem Dispatching.frame {n : Nat} (hd : f.Dispatching n) :
    ∃ s : Kernel, s.Inv ∧ ¬ s.UserMode ∧ frameOf f.kernel = frameOf s := by
  obtain ⟨s, ready, g, hi, hu, -, hg, hf⟩ := hd.started
  refine ⟨s, hi, hu, ?_⟩
  have h := foldl_frame (statements.take n) g
  rw [hg] at h
  rw [hf]
  exact h

theorem Dispatching.mode {n : Nat} (hd : f.Dispatching n) : ¬ f.kernel.UserMode := by
  obtain ⟨s, -, hu, hframe⟩ := hd.frame
  simp only [frameOf, Prod.mk.injEq] at hframe
  obtain ⟨-, -, -, -, -, hcpu⟩ := hframe
  show ¬ f.kernel.cpu.user
  rw [hcpu]
  exact hu

/-- an interrupt in the middle of a dispatch might have come before it -/
theorem Dispatching.interrupt {n : Nat} (hd : f.Dispatching n) {k' : Kernel}
    (heff : ∀ s : Kernel, s.Inv → ¬ s.UserMode → frameOf f.kernel = frameOf s →
      ∃ e : Effect, k' = e.apply f.kernel ∧ (e.apply s).Inv ∧ ¬ (e.apply s).UserMode ∧
        ∀ p ∈ s.readyQueue, ∀ P, e.change p P = P) :
    { f with kernel := k' }.Dispatching n := by
  obtain ⟨s, ready, g, hi, hu, hq, hg, hf⟩ := hd.started
  have hframe : frameOf f.kernel = frameOf s := by
    have h := foldl_frame (statements.take n) g
    rw [hg] at h
    rw [hf]
    exact h
  obtain ⟨e, hk', hi', hu', hchange⟩ := heff s hi hu hframe
  have hp : ∀ P, e.change g.p P = P := hchange g.p (hq ▸ List.mem_cons_self)
  refine ⟨hd.bound, hd.ring0, e.apply s, ready ++ e.woken, { g with kernel := e.apply g.kernel },
    hi', hu', ?_, ?_, ?_⟩
  · show s.readyQueue ++ e.woken = g.p :: (ready ++ e.woken)
    rw [hq]
    rfl
  · show e.apply g.kernel = _
    rw [hg]
    rfl
  · rw [exec_foldl_apply hp, hk', hf]

/-- all statements, and `iret`: the process has been dispatched -/
theorem foldl_statements (g : Thread) (s : Kernel) (ready : List Nat)
    (hg : g.kernel = { s with readyQueue := ready }) :
    { (statements.foldl exec g).kernel with cpu := (statements.foldl exec g).regs }
      = s.dispatched g.p ready { g.found.saved with
          esp := g.found.esp, ebp := g.found.ebp, eip := g.found.restoreHere } g.found.flags := by
  simp only [statements, List.foldl_cons, List.foldl_nil, exec, hg, Kernel.dispatched, switchToProcess,
    Kernel.setStatus, Kernel.modify]

theorem Dispatching.iret (hd : f.Dispatching statements.length) :
    { f.kernel with cpu := f.regs }.Inv ∧ f.regs.user ∧ f.kernel.currentProcess = some f.p := by
  obtain ⟨s, ready, g, hi, hu, hq, hg, hf⟩ := hd.started
  have hring0 := hd.ring0
  have hp := foldl_p statements g
  have hfound := foldl_found statements g
  have hdone := foldl_statements g s ready hg
  rw [List.take_length] at hf
  generalize statements.foldl exec g = h at hf hp hfound hdone
  subst hf
  have hring0 : ¬ g.found.saved.user := hfound ▸ hring0
  have hinv := Kernel.inv_dispatched hi hq hu (show ¬ Regs.user { g.found.saved with
    esp := g.found.esp, ebp := g.found.ebp, eip := g.found.restoreHere } from hring0) g.found.flags
  rw [← hdone] at hinv
  have hcpu := congrArg Kernel.cpu hdone
  have hcur := congrArg Kernel.currentProcess hdone
  refine ⟨hinv, ?_, hcur.trans (congrArg some hp.symm)⟩
  have hlt : g.p < s.created := (hi.placed.mem_iff g.p).mpr (Or.inl (hq ▸ List.mem_cons_self))
  show h.regs.user
  rw [show h.regs = _ from hcpu]
  show ((s.setStatus g.p .running).procs g.p).context.cs &&& 3 = 3
  simp only [Kernel.setStatus, Kernel.modify, if_true]
  exact hi.user_context g.p hlt

/-! ## steps -/

theorem inv_run_step {found : SwitchRegs} {g : Thread} (hi : f.Inv) (hen : f.Enabled (.run found))
    (hs : f.run found = .ok g) : g.Inv := by
  obtain ⟨hnu, hring0⟩ := hen
  cases hi with
  | user _ _ hpc => exact absurd hpc hnu
  | kernel hk hu _ hd hfront =>
    cases hpc : f.pc with
    | user => exact absurd hpc hnu
    | dispatch n => exact absurd hpc (hd n)
    | main =>
      simp only [run, hpc] at hs
      cases hs
      exact .kernel hk hu (fun h => by cases h) (fun n h => by cases h) (fun h => by cases h)
    | test =>
      simp only [run, hpc] at hs
      cases hs
      by_cases he : f.kernel.readyQueue.isEmpty = true
      · refine .kernel hk hu ?_ ?_ ?_ <;> simp [he]
      · refine .kernel hk hu ?_ ?_ ?_ <;> simp_all
    | popFront =>
      obtain ⟨p, ready, hq⟩ := List.exists_cons_of_ne_nil (hfront hpc)
      simp only [run, hpc, hq] at hs
      cases hs
      exact .dispatch 0 rfl ⟨Nat.zero_le _, hring0, f.kernel, ready, { f with
        kernel := { f.kernel with readyQueue := ready }, pc := .dispatch 0, p := p, found := found },
        hk, hu, hq, rfl, rfl⟩
    | restoreHere =>
      simp only [run, hpc] at hs
      cases hs
      have hk' : { f.kernel with currentControlFlow := .kernelThread }.Inv := { hk with
        placed := ⟨hk.placed.perm, hk.placed.ready, hk.placed.running, hk.placed.blocking⟩
        thread := Or.inr ⟨hu, rfl, (hk.kernel hu).2⟩ }
      exact .kernel hk' hu (fun h => by cases h) (fun n h => by cases h) (fun h => by cases h)
    | usleep =>
      simp only [run, hpc] at hs
      cases hs
      exact .kernel (inv_of_fields hk 1 f.kernel.stores) hu (fun h => by cases h) (fun n h => by cases h)
        (fun h => by cases h)
    | waiting =>
      simp only [run, hpc] at hs
      cases hs
      by_cases hc : f.kernel.countDown > 0
      · refine .kernel hk hu ?_ ?_ ?_ <;> simp [hc]
      · refine .kernel hk hu ?_ ?_ ?_ <;> simp [hc]
  | dispatch n hpc hd =>
    simp only [run, hpc] at hs
    by_cases hn : n < statements.length
    · have hst : statements[n]? = some (statements.get ⟨n, hn⟩) := List.getElem?_eq_getElem hn
      rw [hst] at hs
      cases hs
      refine .dispatch (n + 1) rfl ⟨hn, ?_, ?_⟩
      · show ¬ (f.exec _).found.saved.user
        rw [exec_found]
        exact hd.ring0
      · obtain ⟨s, ready, g, hi, hu, hq, hg, hf⟩ := hd.started
        refine ⟨s, ready, g, hi, hu, hq, hg, ?_⟩
        have ht : statements.take (n + 1) = statements.take n ++ [statements.get ⟨n, hn⟩] :=
          List.take_succ_eq_append_getElem hn
        rw [ht, List.foldl_append, hf, exec_pc]
        rfl
    · have e : n = statements.length := Nat.le_antisymm hd.bound (Nat.le_of_not_lt hn)
      rw [List.getElem?_eq_none (Nat.le_of_not_lt hn)] at hs
      cases hs
      subst e
      obtain ⟨hk, hu, hcur⟩ := hd.iret
      exact .user hk hu rfl hcur

theorem inv_resume_same {k : Kernel} (hi : { f with kernel := k }.Inv)
    (h : k.currentControlFlow = f.kernel.currentControlFlow) : (f.resume k).Inv := by
  have hc : ¬ (f.kernel.currentControlFlow = .processThread ∧ k.currentControlFlow = .kernelThread) := by
    rw [h]
    rintro ⟨h1, h2⟩
    rw [h1] at h2
    cases h2
  rw [resume, if_neg hc]
  exact hi

theorem inv_resume_kernel {k : Kernel} (hk : k.Inv) (hu : ¬ k.UserMode)
    (h1 : f.kernel.currentControlFlow = .processThread) : (f.resume k).Inv := by
  rw [resume, if_pos ⟨h1, (hk.kernel hu).1⟩]
  exact .kernel hk hu (fun h => by cases h) (fun n h => by cases h) (fun h => by cases h)

theorem inv_timer {t : Trap} {k : Kernel} (hi : f.Inv) (hen : f.Enabled (.timer t))
    (hw : ¬ f.InWindow) (hs : f.kernel.trap 0x30 t = .ok k) : (f.resume k).Inv := by
  cases hi with
  | kernel hk hu hnu hd hfront =>
    have hstep : f.kernel.Step (.timer t) k := ⟨hen, hs⟩
    have hi' := Kernel.inv_step hk hstep
    cases hstep.outcome hk with
    | preempted _ p hr hut => exact absurd (hen.mp hut) hu
    | ticked _ hm hr =>
      refine inv_resume_same (.kernel hi' hr hnu hd fun hpc hnil => ?_) rfl
      have hnil : f.kernel.readyQueue ++ _ = [] := hnil
      exact hfront hpc (List.append_eq_nil_iff.mp hnil).1
  | dispatch n hpc hd =>
    have hflow := hd.flow
    rw [if_neg fun hm => hw ⟨n, hpc, hm⟩] at hflow
    have hne : f.kernel.currentControlFlow ≠ .processThread := by
      rw [hflow]
      decide
    have ht : ¬ t.regs.user := fun h => hd.mode (hen.mp h)
    have hd' := hd.interrupt fun s hi hu hframe => timer_effect hi hu hframe hne ht hs
    obtain ⟨s, hi, hu, hframe⟩ := hd.frame
    obtain ⟨e, hk, -⟩ := timer_effect hi hu hframe hne ht hs
    exact inv_resume_same (.dispatch n hpc hd') (by rw [hk]; rfl)
  | user hk hu hpc hcur =>
    have hstep : f.kernel.Step (.timer t) k := ⟨hen, hs⟩
    have hi' := Kernel.inv_step hk hstep
    cases hstep.outcome hk with
    | ticked _ hm hr => exact absurd hu hm
    | preempted _ p hr hut =>
      exact inv_resume_kernel hi' hk.kernel_context (hk.user hu).1

theorem inv_keyboard {t : Trap} {k : Kernel} (hi : f.Inv) (hen : f.Enabled (.keyboard t))
    (hs : f.kernel.trap 0x31 t = .ok k) : (f.resume k).Inv := by
  cases hi with
  | kernel hk hu hnu hd hfront =>
    have hstep : f.kernel.Step (.keyboard t) k := ⟨hen, hs⟩
    have hi' := Kernel.inv_step hk hstep
    cases hstep.outcome hk with
    | typed _ r h hm =>
      exact inv_resume_same (.kernel hi' (fun h => hu (hm.mp h)) hnu hd hfront) rfl
    | answered _ r p h hm =>
      refine inv_resume_same (.kernel hi' (fun h => hu (hm.mp h)) hnu hd fun _ hnil => ?_) rfl
      have hnil : f.kernel.readyQueue ++ [p] = [] := hnil
      cases (List.append_eq_nil_iff.mp hnil).2
  | dispatch n hpc hd =>
    have ht : ¬ t.regs.user := fun h => hd.mode (hen.mp h)
    have hd' := hd.interrupt fun s hi hu hframe => keyboard_effect hi hu hframe ht hs
    obtain ⟨s, hi, hu, hframe⟩ := hd.frame
    obtain ⟨e, hk, -⟩ := keyboard_effect hi hu hframe ht hs
    exact inv_resume_same (.dispatch n hpc hd') (by rw [hk]; rfl)
  | user hk hu hpc hcur =>
    have hstep : f.kernel.Step (.keyboard t) k := ⟨hen, hs⟩
    have hi' := Kernel.inv_step hk hstep
    cases hstep.outcome hk with
    | typed _ r h hm =>
      exact inv_resume_same (.user hi' (hm.mpr hu) hpc hcur) rfl
    | answered _ r p h hm =>
      exact inv_resume_same (.user hi' (hm.mpr hu) hpc hcur) rfl

theorem inv_syscall {t : Trap} {k : Kernel} (hi : f.Inv) (hen : f.Enabled (.syscall t))
    (hs : f.kernel.trap 32 t = .ok k) : (f.resume k).Inv := by
  cases hi with
  | kernel hk hu => exact absurd hen.2 hu
  | dispatch n hpc hd => exact absurd hen.2 hd.mode
  | user hk hu hpc hcur =>
    have hstep : f.kernel.Step (.syscall t) k := ⟨hen, hs⟩
    have hi' := Kernel.inv_step hk hstep
    cases hstep.outcome hk with
    | served _ pg eax hut =>
      exact inv_resume_same (.user hi' hut hpc hcur) rfl
    | gets _ p pg =>
      exact inv_resume_kernel hi' hk.kernel_context (hk.user hu).1
    | sleep _ p =>
      exact inv_resume_kernel hi' hk.kernel_context (hk.user hu).1

theorem inv_step {a : ThreadAction} {g : Thread} (hi : f.Inv) (hw : f.OutsideWindow a)
    (hs : f.Step a g) : g.Inv := by
  obtain ⟨hen, hs⟩ := hs
  cases a with
  | run found => exact inv_run_step hi hen hs
  | execv image =>
    cases hex : StarOS.execv f.kernel image with
    | error e =>
      simp only [step, hex] at hs
      cases hs
    | ok k =>
      simp only [step, hex] at hs
      cases hs
      cases hi with
      | dispatch n hpc => exact absurd (hpc.symm.trans hen) (by simp)
      | user _ _ hpc => exact absurd (hpc.symm.trans hen) (by simp)
      | kernel hk hu hnu hd hfront =>
        have hstep : f.kernel.Step (.execv image) k := ⟨trivial, hex⟩
        have hi' := Kernel.inv_step hk hstep
        cases hstep.outcome hk with
        | enqueued =>
          refine .kernel hi' hu hnu hd fun hpc => ?_
          exact absurd (hpc.symm.trans hen) (by simp)
  | timer t =>
    cases htrap : f.kernel.trap 0x30 t with
    | error e =>
      simp only [step, htrap] at hs
      cases hs
    | ok k =>
      simp only [step, htrap] at hs
      cases hs
      exact inv_timer hi hen (hw t rfl hen) htrap
  | keyboard t =>
    cases htrap : f.kernel.trap 0x31 t with
    | error e =>
      simp only [step, htrap] at hs
      cases hs
    | ok k =>
      simp only [step, htrap] at hs
      cases hs
      exact inv_keyboard hi hen htrap
  | syscall t =>
    cases htrap : f.kernel.trap 32 t with
    | error e =>
      simp only [step, htrap] at hs
      cases hs
    | ok k =>
      simp only [step, htrap] at hs
      cases hs
      exact inv_syscall hi hen htrap

/-- what the timer saves are the registers of the process -/
theorem preempts_user (hk : f.kernel.Inv) (hu : f.kernel.UserMode)
    (hcur : f.kernel.currentProcess = some f.p) {t : Trap} {g : Thread} (hs : f.Step (.timer t) g) :
    (g.kernel.procs f.p).context.toRegs = t.regs := by
  obtain ⟨hen, hs⟩ := hs
  have hut : t.regs.user := hen.mpr hu
  obtain ⟨k, hstep, ho⟩ := Kernel.timer_outcome (t := t) hk hen
  have htrap : f.kernel.trap 0x30 t = .ok k := hstep
  simp only [step, htrap] at hs
  cases hs
  show (k.procs f.p).context.toRegs = t.regs
  cases ho with
  | ticked _ hm => exact absurd hu hm
  | preempted _ p hr =>
    obtain ⟨-, q, hq, hqc⟩ := hk.user hu
    have e1 : q = p := List.singleton_inj.mp (hq.symm.trans hr)
    have e2 : q = f.p := Option.some.inj (hqc.symm.trans hcur)
    have e : ((f.kernel.afterTick.preempt p (t.frame 0x30)).procs f.p).context
        = saveContextFromTrapframe (f.kernel.afterTick.procs f.p).context (t.frame 0x30) := by
      show (((f.kernel.afterTick.offCpu p (t.frame 0x30)).setStatus p .ready).procs f.p).context = _
      rw [Kernel.offCpu_procs, if_pos (e2.symm.trans e1)]
    rw [e]
    simp only [saveContextFromTrapframe, Trap.frame, if_pos hut]

theorem preemptsUser_iff (hi : f.Inv) (a : ThreadAction) : f.PreemptsUser a ↔ f.OutsideWindow a := by
  constructor
  · rintro h t rfl hen ⟨n, hpc, hm⟩
    cases hi with
    | kernel _ _ _ hd => exact hd n hpc
    | user _ _ hu => exact absurd (hpc.symm.trans hu) (by simp)
    | dispatch m hpc' hd =>
      have e : m = n := Pc.dispatch.inj (hpc'.symm.trans hpc)
      subst e
      have hflow := hd.flow
      rw [if_pos hm] at hflow
      exact hd.mode (hen.mp (h t rfl hen hflow).1)
  · rintro h t rfl hen hflow
    cases hi with
    | kernel hk hu =>
      rw [(hk.kernel hu).1] at hflow
      cases hflow
    | dispatch n hpc hd =>
      rw [hd.flow, if_neg fun hm => h t rfl hen ⟨n, hpc, hm⟩] at hflow
      cases hflow
    | user hk hu hpc hcur =>
      have hut : t.regs.user := hen.mpr hu
      exact ⟨hut, if_pos hut, if_pos hut, fun g hs => ⟨hcur, preempts_user hk hu hcur hs⟩⟩

end

/-- **In every run with interrupts between any two statements of the scheduler, the timer preempts
ring 3 only and saves the registers of the process that runs; exactly if no timer interrupt arrives
after `Current_control_flow = Process_thread` and before `iret`.** -/
theorem preempts_user_iff (b : BootState) (as : List ThreadAction) :
    Along Step PreemptsUser (boot b) as ↔ Along Step OutsideWindow (boot b) as :=
  Along.iff_of_inv (I := Inv) (P := fun _ _ => True) (fun _ _ _ hi _ hw hs => inv_step hi hw hs)
    (fun _ a hi _ => preemptsUser_iff hi a) (inv_boot b) (along_of_labels (fun _ _ _ => trivial) _)

/-! ## a run into the window -/

/-- the thread after a step that does not halt -/
def next (f : Thread) (a : ThreadAction) : Thread :=
  match f.step a with
  | .ok g => g
  | .error _ => f

theorem step_next {f : Thread} {a : ThreadAction} (hen : f.Enabled a) (hok : (f.step a).isOk = true) :
    f.Step a (f.next a) := by
  refine ⟨hen, ?_⟩
  rw [next]
  revert hok
  cases f.step a with
  | ok t => exact fun _ => rfl
  | error e => exact fun h => by cases h

def smallFound : SwitchRegs := ⟨Kernel.ring0, 0x52cff000, 0x52cff040, 0x52d01234, 0x202⟩

/-- `n` statements of the kernel's thread -/
def runs (f : Thread) : Nat → Thread
  | 0 => f
  | n + 1 => (runs f n).next (.run smallFound)

theorem path_runs {f : Thread} {n : Nat}
    (h : ∀ i < n, (f.runs i).pc ≠ .user ∧ ((f.runs i).step (.run smallFound)).isOk = true) :
    Path Step f (List.replicate n (.run smallFound)) (f.runs n) := by
  induction n with
  | zero => exact path_nil.mpr rfl
  | succ n ih =>
    obtain ⟨hpc, hok⟩ := h n (Nat.lt_succ_self n)
    rw [List.replicate_succ', path_snoc]
    exact ⟨f.runs n, ih fun i hi => h i (Nat.lt_succ_of_lt hi), step_next ⟨hpc, by decide⟩ hok⟩

/-- one process is created -/
def created : Thread := (boot Kernel.smallMachine).next (.execv Kernel.smallImage)

/-- **A timer interrupt right after `Current_control_flow = Process_thread` saves the registers of the
kernel into the process.** -/
theorem kernel_preempted : ¬ ∀ (b : BootState) (as : List ThreadAction),
    Along Step PreemptsUser (boot b) as := by
  intro hall
  have h := hall Kernel.smallMachine (.execv Kernel.smallImage :: (List.replicate 25 (.run smallFound) ++
    [.timer (Kernel.trapOf Kernel.ring0 0)]))
  have h := h.2 created (step_next rfl rfl)
  have h := (h.of_append (path_runs (by decide +kernel))).1
  have hmode : ¬ (created.runs 25).kernel.UserMode := by decide +kernel
  have hen : (created.runs 25).Enabled (.timer (Kernel.trapOf Kernel.ring0 0)) :=
    iff_of_false (by decide) hmode
  have hc := (h _ rfl hen (by decide +kernel)).1
  exact absurd hc (by decide)

end Thread
end StarOS
