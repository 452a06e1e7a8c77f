import StarOS.Kernel.State

/-!
# The steps of the kernel (`process.cpp`, `schedular.cpp`, `interrupt.cpp`, `system_entry.cpp`)

One definition for each function of the source that moves processes between the queues:

* `execv`, with the result of loading the program as an argument (`Image`);
* `schedular`, one round of the loop up to its wait, `switchToProcess`, and the wait, `usleep`;
* `hardwareInterruptHandler` for the timer and the keyboard, `systemEntry` for the system calls,
  and `interruptHandler` over both;
* `Action`, `Kernel.step`: the atomic steps, and `Enabled`: when the CPU can take one.  `Step`
  is a step that does not halt.

What `printf`, `info` and `debug` print is not part of the state.
-/

namespace StarOS

namespace Kernel

/-- change the process `p` -/
def modify (s : Kernel) (p : Nat) (f : Process → Process) : Kernel :=
  { s with procs := fun q => if q = p then f (s.procs q) else s.procs q }

def setStatus (s : Kernel) (p : Nat) (status : ProcessStatus) : Kernel :=
  s.modify p fun P => { P with status := status }

/-- `CURRENT_PROCESS` where it is dereferenced -/
def current (s : Kernel) : Except Fatal Nat :=
  match s.currentProcess with
  | some p => .ok p
  | none => .error .nullProcess

/-- the code that runs is a process -/
def UserMode (s : Kernel) : Prop := s.cpu.user

instance (s : Kernel) : Decidable s.UserMode := inferInstanceAs (Decidable s.cpu.user)

end Kernel

/-! ## creating and entering a process -/

/-- what loading a program leaves: the buffer of the file, the page directory of the process, the
entry point and the page tables -/
structure Image where
  buffer : UInt32
  pageDirectory : Nat
  entry : UInt32
  paging : Paging

def userStackVaddress : UInt32 := 0x0ff00000

/-- `execv`, after the program is loaded -/
def execv (s : Kernel) (image : Image) : Except Fatal Kernel := do
  let (codeIndex, gdt) ← addToGDT s.gdt (.new 0 0xfffff 0xfa 0xc)
  let (dataIndex, gdt) ← addToGDT gdt (.new 0 0xfffff 0xf2 0xc)
  let code := descriptorSelector codeIndex true 3
  let data := descriptorSelector dataIndex true 3
  let p : Process := {
    id := s.allocatedProcessId
    buffer := image.buffer
    status := .ready
    context := {
      edi := 0, esi := 0, ebp := 0, esp := userStackVaddress - 4, ebx := 0, edx := 0, ecx := 0, eax := 0
      gs := data, fs := data, es := data, ds := data, ss := data, cs := code
      eip := image.entry, eflags := 0
      pageDirectory := image.pageDirectory } }
  return { s with
    procs := fun q => if q = s.created then p else s.procs q
    created := s.created + 1
    allocatedProcessId := s.allocatedProcessId + 1
    readyQueue := s.readyQueue ++ [s.created]
    gdt := gdt
    paging := image.paging }

/-- `switch_to_process`; `kernel` are the registers `save_context` finds (with the address of
`scheduler_restore_here` for `eip`), `flags` what `pushf` then pushes for `iret` -/
def switchToProcess (s : Kernel) (p : Nat) (kernel : Regs) (flags : UInt32) : Kernel :=
  let cxt := (s.procs p).context
  { s with
    kernelProc := { kernel with eax := 0, pageDirectory := s.cr3 }
    tssEsp0 := kernel.esp
    cpu := { cxt.toRegs with eflags := flags }
    cr3 := cxt.pageDirectory
    currentControlFlow := .processThread }

/-- one round of the loop of `schedular`, up to the call `usleep(1000)` -/
def schedular (s : Kernel) (kernel : Regs) (flags : UInt32) : Except Fatal Kernel := do
  if s.readyQueue.isEmpty then return s
  let (p, ready) ← LinkedList.popFront s.readyQueue
  let s := { s with readyQueue := ready }.setStatus p .running
  let s := { s with runningQueue := s.runningQueue ++ [p], currentProcess := some p }
  return switchToProcess s p kernel flags

def ticksPerSecond : Int := 1000

/-- `usleep`, up to its loop: `Count_down` is the product in `double`, cut to an integer -/
def usleep (s : Kernel) (microseconds : UInt32) : Except Fatal Kernel :=
  if microseconds > 1000000 then .error (.microsecondsTooLarge microseconds.toNat)
  else .ok { s with countDown := ticksPerSecond * microseconds.toNat / 1000000 }

/-! ## hardware interrupts -/

namespace Kernel

/-- `blocking_queue.remove(p); ready_queue.push_back(p); p->status = Ready` -/
def wake (s : Kernel) (p : Nat) : Except Fatal Kernel := do
  let blocking ← LinkedList.remove s.blockingQueue p
  return { s with blockingQueue := blocking, readyQueue := s.readyQueue ++ [p] }.setStatus p .ready

/-- the first lambda of the timer interrupt -/
def countDownClock (s : Kernel) (clock : CountDownClock) : Except Fatal (Kernel × CountDownClock) := do
  let clock := { clock with countDown := clock.countDown - 1 }
  if clock.countDown = 0 then
    let s ← s.wake clock.process
    return (s, clock)
  return (s, clock)

/-- the two passes over `waiting_sleep_queue` -/
def tick (s : Kernel) : Except Fatal Kernel := do
  let s := { s with countDown := s.countDown - 1 }
  let (s, clocks) ← LinkedList.forEach countDownClock s s.waitingSleepQueue
  return { s with waitingSleepQueue := clocks.filter fun clock => clock.countDown > 0 }

/-- the current process gives up the CPU: its context is saved, it leaves `running_queue` -/
def suspend (s : Kernel) (p : Nat) (tf : TrapFrame) : Except Fatal Kernel := do
  let s := s.modify p fun P => { P with context := saveContextFromTrapframe P.context tf }
  let running ← LinkedList.remove s.runningQueue p
  return { s with runningQueue := running }

/-- the rest of the way back to the scheduler -/
def toScheduler (s : Kernel) (tf : TrapFrame) : Kernel × TrapFrame :=
  ({ s with cr3 := s.kernelProc.pageDirectory, currentControlFlow := .kernelThread },
    restoreContextToTrapframe s.kernelProc tf)

/-- `IRQ_TIMER` -/
def timerInterrupt (s : Kernel) (tf : TrapFrame) : Except Fatal (Kernel × TrapFrame) := do
  let s ← s.tick
  if s.currentControlFlow ≠ .processThread then return (s, tf)
  let p ← s.current
  let s ← s.suspend p tf
  let s := { s with readyQueue := s.readyQueue ++ [p] }.setStatus p .ready
  return s.toScheduler tf

/-- `IRQ_KEYBOARD` -/
def keyboardInterrupt (s : Kernel) (data : UInt8) : Except Fatal Kernel := do
  let r ← ps2KeyboardInterrupt s.keyboard data
  let s := { s with
    keyboard := r.keyboard
    stores := s.stores ++ r.store.toList.map fun b => ⟨s.cr3, b.1, b.2⟩ }
  if !s.keyboard.gets.enabled && s.keyboard.gets.count != 0 then
    match s.processWaitingGets with
    | none => .error .nullProcess
    | some p =>
      let s := s.modify p fun P =>
        { P with context := { P.context with eax := s.keyboard.gets.buffer } }
      let s ← s.wake p
      return { s with
        keyboard := { s.keyboard with
          gets := { s.keyboard.gets with count := 0, alreadyCount := 0, buffer := 0 } }
        processWaitingGets := none }
  else return s

end Kernel

def pic1BaseId : Nat := 0x30
def pic2BaseId : Nat := 0x38
def syscallIntId : Nat := 32

def isHardwareInterrupt (conditionCode : Nat) : Bool :=
  (pic1BaseId ≤ conditionCode && conditionCode < pic1BaseId + 8) ||
  (pic2BaseId ≤ conditionCode && conditionCode < pic2BaseId + 8)

def hardwareInterruptHandler (s : Kernel) (tf : TrapFrame) (data : UInt8) :
    Except Fatal (Kernel × TrapFrame) :=
  let conditionCode := tf.conditionCode.toNat
  let irq := if pic2BaseId ≤ conditionCode then conditionCode - pic2BaseId else conditionCode - pic1BaseId
  match irq with
  | 0 => s.timerInterrupt tf
  | 1 => do return (← s.keyboardInterrupt data, tf)
  | irq => .error (.unsupportedIRQ irq)

/-! ## system calls -/

/-- `copy_process_mapping`; the size is checked after the copy -/
def copyProcessMapping (s : Kernel) (start count : UInt32) : Except Fatal Kernel := do
  let p ← s.current
  let index := dirIndex start.toNat
  let entry := s.paging.entry (s.procs p).context.pageDirectory index
  let s := { s with paging := s.paging.setEntry s.kernelPagingDirectory index entry }
  if count.toNat > 1024 * 1024 * 4 then .error (.countTooLarge count.toNat) else return s

def systemEntry (s : Kernel) (tf : TrapFrame) : Except Fatal (Kernel × TrapFrame) :=
  match tf.eax.toNat with
  | 0 => return (s, tf)
  | 1 => return (s, { tf with eax := tf.ebx + tf.ecx })
  | 2 => do return (← copyProcessMapping s tf.ebx tf.ecx, tf)
  | 3 => do
    let s ← copyProcessMapping s tf.ebx tf.ecx
    return (← copyProcessMapping s tf.edx (1024 * 4), tf)
  | 4 => do
    let s ← copyProcessMapping s tf.ebx tf.ecx
    let p ← s.current
    -- the source saves the context before the check and moves the process after it
    if s.currentControlFlow ≠ .processThread then .error .invalidSource
    else
      let s ← s.suspend p tf
      let s := { s with
        keyboard := { s.keyboard with gets := ⟨true, tf.ecx, 0, tf.ebx⟩ }
        processWaitingGets := some p
        blockingQueue := s.blockingQueue ++ [p] }.setStatus p .blocking
      let (s, tf) := s.toScheduler tf
      return ({ s with currentProcess := none }, tf)
  | 5 => do
    if s.currentControlFlow ≠ .processThread then .error .invalidSourceSleep
    else
      let p ← s.current
      let s ← s.suspend p tf
      let s := { s with blockingQueue := s.blockingQueue ++ [p] }.setStatus p .blocking
      let clock : CountDownClock := ⟨ticksPerSecond * tf.ebx.toNat, p⟩
      let s := { s with waitingSleepQueue := s.waitingSleepQueue ++ [clock] }
      let (s, tf) := s.toScheduler tf
      return ({ s with currentProcess := none }, tf)
  | _ => .error .syscallNotSupported

/-! ## interrupts and steps -/

/-- the page fault branch; the mask is the source's `~0x111` -/
def pageFault (s : Kernel) (cr2 : UInt32) : Except Fatal Kernel :=
  let addr := (cr2 &&& ~~~0x111).toNat
  match addMemoryMapping s.paging addr addr s.kernelPagingDirectory false with
  | none => .error .notAligned
  | some paging => .ok { s with paging := paging }

def interruptHandler (s : Kernel) (tf : TrapFrame) (data : UInt8) (cr2 : UInt32) :
    Except Fatal (Kernel × TrapFrame) :=
  let conditionCode := tf.conditionCode.toNat
  if conditionCode = 7 ∨ conditionCode = 8 ∨ conditionCode = 12 then .ok (s, tf)
  else if conditionCode = 14 then do return (← pageFault s cr2, tf)
  else if conditionCode = syscallIntId then systemEntry s tf
  else if isHardwareInterrupt conditionCode then do
    let (s, tf) ← hardwareInterruptHandler s tf data
    if s.returnToProcess then
      return ({ s with currentControlFlow := .processThread, returnToProcess := false }, tf)
    else return (s, tf)
  else .ok (s, tf)

namespace Kernel

/-- an interrupt, from the vector to `trapret` -/
def trap (s : Kernel) (conditionCode : UInt32) (t : Trap) : Except Fatal Kernel := do
  let (s, tf) ← interruptHandler s (t.frame conditionCode) t.data t.cr2
  return { s with cpu := trapret tf }

end Kernel

/-- a step of the kernel; an exception, such as a page fault, is none of them -/
inductive Action where
  | execv (image : Image)
  | dispatch (kernel : Regs) (flags : UInt32)
  | timer (t : Trap)
  | keyboard (t : Trap)
  | syscall (t : Trap)

namespace Kernel

def step (s : Kernel) : Action → Except Fatal Kernel
  | .execv image => StarOS.execv s image
  | .dispatch kernel flags => schedular s kernel flags
  | .timer t => s.trap 0x30 t
  | .keyboard t => s.trap 0x31 t
  | .syscall t => s.trap 32 t

/-- the scheduler runs in ring 0, system calls come from ring 3, and an interrupt finds the CPU in
the ring it was left in -/
def Enabled (s : Kernel) : Action → Prop
  | .execv _ => True
  | .dispatch kernel _ => ¬ s.UserMode ∧ ¬ kernel.user
  | .timer t => t.regs.user ↔ s.UserMode
  | .keyboard t => t.regs.user ↔ s.UserMode
  | .syscall t => t.regs.user ∧ s.UserMode

instance (s : Kernel) (a : Action) : Decidable (s.Enabled a) :=
  match a with
  | .execv _ => isTrue trivial
  | .dispatch kernel _ => inferInstanceAs (Decidable (¬ s.UserMode ∧ ¬ kernel.user))
  | .timer t => inferInstanceAs (Decidable (t.regs.user ↔ s.UserMode))
  | .keyboard t => inferInstanceAs (Decidable (t.regs.user ↔ s.UserMode))
  | .syscall t => inferInstanceAs (Decidable (t.regs.user ∧ s.UserMode))

def Step (s : Kernel) (a : Action) (t : Kernel) : Prop := s.Enabled a ∧ s.step a = .ok t

end Kernel

/-- the kernel as `kernel_main` enters the scheduler, before the first `execv` -/
structure BootState where
  paging : Paging
  kernelPagingDirectory : Nat
  tss : Nat
  kernelStackEnd : UInt32
  cpu : Regs
  ring0 : ¬ cpu.user

def Regs.zero : Regs := ⟨0, 0, 0, 0, 0, 0, 0, 0, 0, 0, 0, 0, 0, 0, 0, 0⟩

def Kernel.boot (b : BootState) : Kernel where
  procs := fun _ => ⟨0, 0, .ready, { Regs.zero with pageDirectory := 0 }⟩
  created := 0
  allocatedProcessId := 1
  readyQueue := []
  runningQueue := []
  blockingQueue := []
  waitingSleepQueue := []
  currentProcess := none
  currentControlFlow := .kernelThread
  kernelProc := { Regs.zero with pageDirectory := 0 }
  keyboard := Keyboard.boot
  processWaitingGets := none
  countDown := 0
  returnToProcess := false
  gdt := initGDT b.tss
  tssEsp0 := b.kernelStackEnd
  paging := b.paging
  kernelPagingDirectory := b.kernelPagingDirectory
  cpu := b.cpu
  cr3 := b.kernelPagingDirectory
  stores := []

end StarOS
