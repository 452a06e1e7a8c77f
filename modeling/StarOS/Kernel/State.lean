import StarOS.Paging.Table
import StarOS.Keyboard.Ps2

/-!
# The state of the kernel (`kernel.h`, `kernel.cpp`, `process.cpp`, `linked_list.h`)

* `LinkedList.*`       the queue operations, on lists;
* `Regs`, `Context`, `TrapFrame`   the registers, as the CPU holds them, as a process that does not
                       run keeps them, and as `alltraps` pushes them;
* `SegmentDescriptor`, `addToGDT`, `descriptorSelector`   the GDT;
* `Kernel`             the global variables, with the registers of the CPU.

A process is named by the number of processes created before it, in place of its address.
-/

namespace StarOS

/-! ## queues -/

namespace LinkedList
variable {α σ : Type*}

/-- `remove`: the first occurrence, or `fatal` -/
def remove [DecidableEq α] : List α → α → Except Fatal (List α)
  | [], _ => .error .elemNotFound
  | a :: q, elem => if a = elem then .ok q else (remove q elem).map (a :: ·)

/-- `pop_front` -/
def popFront : List α → Except Fatal (α × List α)
  | [] => .error .emptyQueueToPop
  | a :: q => .ok (a, q)

/-- `for_each`: `func` may change the element and the state around the list -/
def forEach (func : σ → α → Except Fatal (σ × α)) : σ → List α → Except Fatal (σ × List α)
  | s, [] => .ok (s, [])
  | s, a :: q => (func s a).bind fun r => (forEach func r.1 q).map fun t => (t.1, r.2 :: t.2)

theorem remove_of_mem [DecidableEq α] {q : List α} {a : α} (h : a ∈ q) :
    remove q a = .ok (q.erase a) := by
  induction q with
  | nil => exact absurd h List.not_mem_nil
  | cons b q ih =>
    by_cases hb : b = a
    · subst hb
      rw [remove, if_pos rfl, List.erase_cons_head]
    · have ha : a ∈ q := (List.mem_cons.mp h).resolve_left fun e => hb e.symm
      rw [remove, if_neg hb, ih ha, List.erase_cons_tail (by simpa using hb)]
      rfl

end LinkedList

/-! ## registers -/

structure Regs where
  edi : UInt32
  esi : UInt32
  ebp : UInt32
  esp : UInt32
  ebx : UInt32
  edx : UInt32
  ecx : UInt32
  eax : UInt32
  gs : UInt32
  fs : UInt32
  es : UInt32
  ds : UInt32
  ss : UInt32
  cs : UInt32
  eip : UInt32
  eflags : UInt32
deriving DecidableEq

/-- the code that runs is a process: ring 3 -/
def Regs.user (r : Regs) : Prop := r.cs &&& 3 = 3

instance (r : Regs) : Decidable r.user := inferInstanceAs (Decidable (_ = _))

structure Context extends Regs where
  pageDirectory : Nat

structure TrapFrame where
  edi : UInt32
  esi : UInt32
  ebp : UInt32
  unusedEsp : UInt32
  ebx : UInt32
  edx : UInt32
  ecx : UInt32
  eax : UInt32
  gs : UInt32
  fs : UInt32
  es : UInt32
  ds : UInt32
  conditionCode : UInt32
  errorCode : UInt32
  returnAddr : UInt32
  oldCs : UInt32
  oldEflags : UInt32
  oldEsp : UInt32
  oldSs : UInt32

/-- what the CPU and the devices bring into an interrupt: the registers at that moment, the error
code, the stack pointer `pushal` stores, the two words above the frame (`old_esp` and `old_ss` if
the interrupt does not come from ring 3), the byte at the keyboard port and `cr2` -/
structure Trap where
  regs : Regs
  errorCode : UInt32
  unusedEsp : UInt32
  above : UInt32 × UInt32
  data : UInt8
  cr2 : UInt32

/-- the frame pushed by the CPU, the vector's stub and `alltraps` -/
def Trap.frame (t : Trap) (conditionCode : UInt32) : TrapFrame where
  edi := t.regs.edi
  esi := t.regs.esi
  ebp := t.regs.ebp
  unusedEsp := t.unusedEsp
  ebx := t.regs.ebx
  edx := t.regs.edx
  ecx := t.regs.ecx
  eax := t.regs.eax
  gs := t.regs.gs
  fs := t.regs.fs
  es := t.regs.es
  ds := t.regs.ds
  conditionCode := conditionCode
  errorCode := t.errorCode
  returnAddr := t.regs.eip
  oldCs := t.regs.cs
  oldEflags := t.regs.eflags
  oldEsp := if t.regs.user then t.regs.esp else t.above.1
  oldSs := if t.regs.user then t.regs.ss else t.above.2

/-- `trapret`: the registers after the pops and `iret`, which takes `esp` and `ss` from the frame
only on the way to ring 3 -/
def trapret (tf : TrapFrame) : Regs where
  edi := tf.edi
  esi := tf.esi
  ebp := tf.ebp
  esp := if tf.oldCs &&& 3 = 3 then tf.oldEsp else tf.unusedEsp + 36
  ebx := tf.ebx
  edx := tf.edx
  ecx := tf.ecx
  eax := tf.eax
  gs := tf.gs
  fs := tf.fs
  es := tf.es
  ds := tf.ds
  ss := if tf.oldCs &&& 3 = 3 then tf.oldSs else 0x10
  cs := tf.oldCs
  eip := tf.returnAddr
  eflags := tf.oldEflags

def saveContextFromTrapframe (cxt : Context) (tf : TrapFrame) : Context := { cxt with
  edi := tf.edi
  esi := tf.esi
  ebp := tf.ebp
  esp := tf.oldEsp
  ebx := tf.ebx
  edx := tf.edx
  ecx := tf.ecx
  eax := tf.eax
  gs := tf.gs
  fs := tf.fs
  es := tf.es
  ds := tf.ds
  ss := tf.oldSs
  cs := tf.oldCs
  eip := tf.returnAddr
  eflags := tf.oldEflags }

/-- `restore_context_to_trapframe`, without the load of `cr3` -/
def restoreContextToTrapframe (cxt : Context) (tf : TrapFrame) : TrapFrame := { tf with
  eax := cxt.eax
  ebx := cxt.ebx
  ecx := cxt.ecx
  edx := cxt.edx
  esi := cxt.esi
  edi := cxt.edi
  ebp := cxt.ebp
  ds := cxt.ds
  es := cxt.es
  fs := cxt.fs
  gs := cxt.gs
  returnAddr := cxt.eip
  oldCs := cxt.cs
  oldSs := cxt.ss
  oldEsp := cxt.esp
  oldEflags := cxt.eflags }

/-! ## the GDT -/

structure SegmentDescriptor where
  limitLow : Nat
  baseLow : Nat
  baseMid : Nat
  type : Nat
  s : Nat
  dpl : Nat
  p : Nat
  limitHigh : Nat
  avl : Nat
  o : Nat
  x : Nat
  g : Nat
  baseHigh : Nat

/-- the constructor `SegmentDescriptor(base, limit, access_byte, flags)` -/
def SegmentDescriptor.new (base limit accessByte flags : Nat) : SegmentDescriptor where
  limitLow := limit &&& 0xffff
  baseLow := base &&& 0xffff
  baseMid := (base >>> 16) &&& 0xff
  type := accessByte &&& 0xf
  s := (accessByte >>> 4) &&& 0b1
  dpl := (accessByte >>> 5) &&& 0b11
  p := (accessByte >>> 7) &&& 0b1
  limitHigh := (limit >>> 16) &&& 0xf
  avl := flags &&& 0b1
  o := (flags >>> 1) &&& 0b1
  x := (flags >>> 2) &&& 0b1
  g := (flags >>> 3) &&& 0b1
  baseHigh := (base >>> 24) % 256

def gdtSize : Nat := 512

/-- `add_to_GDT`, the table as the list of its entries below `GDT_INDEX` -/
def addToGDT (gdt : List SegmentDescriptor) (d : SegmentDescriptor) :
    Except Fatal (Nat × List SegmentDescriptor) :=
  if gdt.length ≥ gdtSize then .error (.gdtExceedsLimit gdt.length)
  else .ok (gdt.length, gdt ++ [d])

def descriptorSelector (index : Nat) (isGDT : Bool) (rpl : Nat) : UInt32 :=
  let ti := if isGDT then 0 else 1
  UInt32.ofNat (((index <<< 3) + (ti <<< 1) + (rpl &&& 0b11)) % 2^16)

theorem descriptorSelector_toNat (index : Nat) (isGDT : Bool) (rpl : Nat) :
    (descriptorSelector index isGDT rpl).toNat = (8 * index + (if isGDT then 0 else 2) + rpl % 4) % 2^16 := by
  have hmask : rpl &&& 0b11 = rpl % 4 := Nat.and_two_pow_sub_one_eq_mod rpl 2
  have hti : (if isGDT then 0 else 1) <<< 1 = if isGDT then 0 else 2 := by cases isGDT <;> rfl
  show (((index <<< 3) + ((if isGDT then 0 else 1) <<< 1) + (rpl &&& 0b11)) % 2^16) % 2^32 = _
  rw [hmask, hti, Nat.shiftLeft_eq]
  omega

/-- the entries `init_GDT` makes -/
def initGDT (tss : Nat) : List SegmentDescriptor :=
  [.new 0 0 0 0, .new 0 0xfffff 0x9a 0xc, .new 0 0xfffff 0x92 0xc, .new tss 104 0x89 0x0]

/-! ## the kernel -/

inductive ProcessStatus where
  | ready | running | blocking
deriving DecidableEq

structure Process where
  id : Nat
  buffer : UInt32
  status : ProcessStatus
  context : Context

inductive ControlFlow where
  | kernelThread | processThread | interruptThread
deriving DecidableEq

structure CountDownClock where
  countDown : Int
  process : Nat
deriving DecidableEq

/-- a store through `gets_buffer`, under the page directory that was loaded -/
structure UserStore where
  cr3 : Nat
  address : UInt32
  byte : UInt8

structure Kernel where
  procs : Nat → Process
  created : Nat
  allocatedProcessId : Nat
  readyQueue : List Nat
  runningQueue : List Nat
  blockingQueue : List Nat
  waitingSleepQueue : List CountDownClock
  currentProcess : Option Nat
  currentControlFlow : ControlFlow
  kernelProc : Context
  keyboard : Keyboard
  processWaitingGets : Option Nat
  countDown : Int
  returnToProcess : Bool
  gdt : List SegmentDescriptor
  tssEsp0 : UInt32
  paging : Paging
  kernelPagingDirectory : Nat
  cpu : Regs
  cr3 : Nat
  stores : List UserStore

end StarOS
