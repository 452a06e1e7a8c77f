import StarOS.Kernel.Queues
import StarOS.Lib.Stack

/-!
# The way into an interrupt and back, word by word (`interrupt_handlers.S`, `alltraps.S`)

An interrupt pushes words: the CPU those of the interrupted code and for some exceptions an error code, the
stub of the vector a 0 in place of an error code and the vector, `alltraps` the registers.  The handler finds
them as a `TrapFrame`, and `trapret` pops them.

* `Instr`, `exec`      the instructions, on the registers and a memory of bytes;
* `stub n`             `interrupt_handler_n` as `codegen_interrupt_handlers.py` writes it: there is no 0 for
                       the vectors 10 to 14 and 17;
* `entered`            delivery, stub and `alltraps` up to the call of `interrupt_handler`;
* `entered_frame`      the handler finds the frame of `Trap.frame`, and all other memory as it was;
* `exec_trapret`       `trapret` leaves the registers of `trapret` on the frame that is in memory;
* `trap_refines`       **the words do what `Kernel.trap` says**, for every interrupt whose stub fits it;
* `resumes_iff`        **an interrupt comes back to the code it interrupted, with all registers, exactly if its
                       stub pushes the 0 when the CPU pushes no error code.**

The instructions are straight-line code; `eip` is not followed while they run, and the call of the handler is
taken as a step that finds the frame and leaves one in its place.
-/

namespace StarOS
open Lib

structure Cpu where
  regs : Regs
  mem : Mem

inductive SegmentRegister where
  | ds | es | fs | gs
deriving DecidableEq

def SegmentRegister.get (r : Regs) : SegmentRegister → UInt32
  | .ds => r.ds
  | .es => r.es
  | .fs => r.fs
  | .gs => r.gs

def SegmentRegister.set (r : Regs) (w : UInt32) : SegmentRegister → Regs
  | .ds => { r with ds := w }
  | .es => { r with es := w }
  | .fs => { r with fs := w }
  | .gs => { r with gs := w }

inductive Instr where
  | pushl (n : UInt32)
  | pushlSegment (s : SegmentRegister)
  | pushal
  | popal
  | poplSegment (s : SegmentRegister)
  | addEsp (n : UInt32)
  | iret

namespace Cpu

def stack (c : Cpu) : WordStack := ⟨c.regs.esp, c.mem⟩

/-- words are pushed, the first one first -/
def pushes (c : Cpu) (ws : List UInt32) : Cpu :=
  let s := c.stack.pushes ws
  ⟨{ c.regs with esp := s.sp }, s.mem⟩

def exec (c : Cpu) : Instr → Cpu
  | .pushl n => c.pushes [n]
  | .pushlSegment s => c.pushes [s.get c.regs]
  | .pushal =>
    let r := c.regs
    c.pushes [r.eax, r.ecx, r.edx, r.ebx, r.esp, r.ebp, r.esi, r.edi]
  -- the stack pointer is not popped
  | .popal =>
    let w := c.stack.word
    { c with regs := { c.regs with
        edi := w 0, esi := w 1, ebp := w 2, ebx := w 4, edx := w 5, ecx := w 6, eax := w 7
        esp := c.regs.esp + 32 } }
  | .poplSegment s => { c with regs := s.set { c.regs with esp := c.regs.esp + 4 } (c.stack.word 0) }
  | .addEsp n => { c with regs := { c.regs with esp := c.regs.esp + n } }
  | .iret =>
    let w := c.stack.word
    let r := { c.regs with eip := w 0, cs := w 1, eflags := w 2 }
    -- to ring 3 the stack is popped too
    if w 1 &&& 3 = 3 then { c with regs := { r with esp := w 3, ss := w 4 } }
    else { c with regs := { r with esp := c.regs.esp + 12 } }

def run (c : Cpu) (is : List Instr) : Cpu := is.foldl exec c

end Cpu

/-! ## the source -/

/-- the stub of vector `n` pushes a 0 in place of an error code: `padding_error_code` -/
def padded (n : UInt8) : Bool := !((n ≥ 10 && n ≤ 14) || n == 17)

/-- `interrupt_handler_n`, without the jump to `alltraps` -/
def stub (n : UInt8) : List Instr := (if padded n then [.pushl 0] else []) ++ [.pushl n.toUInt32]

open SegmentRegister in
/-- `alltraps`, up to the call -/
def alltrapsCode : List Instr := [.pushlSegment ds, .pushlSegment es, .pushlSegment fs, .pushlSegment gs, .pushal]

open SegmentRegister in
def trapretCode : List Instr :=
  [.popal, .poplSegment gs, .poplSegment fs, .poplSegment es, .poplSegment ds, .addEsp 0x8, .iret]

namespace Cpu

/-- the stack an interrupt is delivered on: from ring 3 that of the TSS, with `ss0` the selector of the kernel's
data segment; the gate leads to selector 8 -/
def onKernelStack (c : Cpu) (esp0 : UInt32) : Cpu :=
  if c.regs.user then ⟨{ c.regs with esp := esp0, ss := 0x10, cs := 0x0008 }, c.mem⟩
  else ⟨{ c.regs with cs := 0x0008 }, c.mem⟩

/-- the CPU delivers an interrupt -/
def deliver (c : Cpu) (esp0 : UInt32) (error : Option UInt32) : Cpu :=
  let r := c.regs
  (c.onKernelStack esp0).pushes
    ((if r.user then [r.ss, r.esp] else []) ++ [r.eflags, r.cs, r.eip] ++ error.toList)

/-- delivery, the stub and `alltraps`, up to the call of `interrupt_handler` -/
def entered (c : Cpu) (esp0 : UInt32) (n : UInt8) (error : Option UInt32) : Cpu :=
  ((c.deliver esp0 error).run (stub n)).run alltrapsCode

/-- `*tf` -/
def frameAt (c : Cpu) : TrapFrame :=
  let w := c.stack.word
  { edi := w 0, esi := w 1, ebp := w 2, unusedEsp := w 3, ebx := w 4, edx := w 5, ecx := w 6, eax := w 7
    gs := w 8, fs := w 9, es := w 10, ds := w 11
    conditionCode := w 12, errorCode := w 13, returnAddr := w 14, oldCs := w 15, oldEflags := w 16
    oldEsp := w 17, oldSs := w 18 }

/-- what is pushed before the general registers -/
def wordsBefore (c : Cpu) (n : UInt8) (error : Option UInt32) : List UInt32 :=
  let r := c.regs
  (if r.user then [r.ss, r.esp] else []) ++ [r.eflags, r.cs, r.eip] ++ error.toList ++
    (if padded n then [0] else []) ++ [n.toUInt32] ++ [r.ds, r.es, r.fs, r.gs]

/-- all that is pushed -/
def words (c : Cpu) (esp0 : UInt32) (n : UInt8) (error : Option UInt32) : List UInt32 :=
  let r := c.regs
  c.wordsBefore n error ++ [r.eax, r.ecx, r.edx, r.ebx,
    ((c.onKernelStack esp0).stack.pushes (c.wordsBefore n error)).sp, r.ebp, r.esi, r.edi]

/-- the stack pointer from which the words go down -/
def base (c : Cpu) (esp0 : UInt32) : UInt32 := if c.regs.user then esp0 else c.regs.esp

/-- the interrupt as `Kernel.trap` takes it -/
def trapOf (c : Cpu) (esp0 : UInt32) (error : Option UInt32) (data : UInt8) (cr2 : UInt32) : Trap where
  regs := c.regs
  errorCode := error.getD 0
  unusedEsp := c.base esp0 - (if c.regs.user then 44 else 36)
  above := (c.stack.word 0, c.stack.word 1)
  data := data
  cr2 := cr2

/-! ## the words that are pushed -/

section
variable {c : Cpu}

theorem pushes_pushes (c : Cpu) (as bs : List UInt32) : (c.pushes as).pushes bs = c.pushes (as ++ bs) := by
  show Cpu.mk _ _ = Cpu.mk _ _
  rw [WordStack.pushes_append]
  rfl

theorem run_stub (c : Cpu) (n : UInt8) :
    c.run (stub n) = c.pushes ((if padded n then [0] else []) ++ [n.toUInt32]) := by
  unfold stub
  cases padded n with
  | false => rfl
  | true => rfl

theorem pushes_regs (c : Cpu) (ws : List UInt32) :
    (c.pushes ws).regs = { c.regs with esp := (c.stack.pushes ws).sp } := rfl

theorem exec_segment (c : Cpu) (ws : List UInt32) (s : SegmentRegister) :
    (c.pushes ws).exec (.pushlSegment s) = c.pushes (ws ++ [s.get c.regs]) := by
  rw [exec, pushes_pushes, pushes_regs]
  cases s <;> rfl

theorem exec_pushal (c : Cpu) (ws : List UInt32) :
    (c.pushes ws).exec .pushal = c.pushes (ws ++ [c.regs.eax, c.regs.ecx, c.regs.edx, c.regs.ebx,
      (c.stack.pushes ws).sp, c.regs.ebp, c.regs.esi, c.regs.edi]) := by
  rw [exec, pushes_regs]
  dsimp only
  rw [pushes_pushes]

theorem run_alltraps (c : Cpu) (ws : List UInt32) : (c.pushes ws).run alltrapsCode =
    c.pushes (ws ++ [c.regs.ds, c.regs.es, c.regs.fs, c.regs.gs] ++ [c.regs.eax, c.regs.ecx, c.regs.edx, c.regs.ebx,
      (c.stack.pushes (ws ++ [c.regs.ds, c.regs.es, c.regs.fs, c.regs.gs])).sp, c.regs.ebp, c.regs.esi,
      c.regs.edi]) := by
  unfold run alltrapsCode
  rw [List.foldl_cons, exec_segment, List.foldl_cons, exec_segment, List.foldl_cons, exec_segment, List.foldl_cons,
    exec_segment, List.foldl_cons, exec_pushal, List.foldl_nil]
  simp only [List.append_assoc, List.cons_append, List.nil_append, SegmentRegister.get]

theorem onKernelStack_stack (c : Cpu) (esp0 : UInt32) : (c.onKernelStack esp0).stack = ⟨c.base esp0, c.mem⟩ := by
  unfold onKernelStack base
  by_cases hu : c.regs.user
  · rw [if_pos hu, if_pos hu]
    rfl
  · rw [if_neg hu, if_neg hu]
    rfl

/-- the general registers and the segment registers are those of the interrupted code -/
theorem onKernelStack_regs (c : Cpu) (esp0 : UInt32) : ∃ esp ss, (c.onKernelStack esp0).regs =
    { c.regs with esp := esp, ss := ss, cs := 0x0008 } := by
  unfold onKernelStack
  by_cases hu : c.regs.user
  · rw [if_pos hu]
    exact ⟨_, _, rfl⟩
  · rw [if_neg hu]
    exact ⟨c.regs.esp, c.regs.ss, rfl⟩

theorem entered_eq (c : Cpu) (esp0 : UInt32) (n : UInt8) (error : Option UInt32) :
    c.entered esp0 n error = (c.onKernelStack esp0).pushes (c.words esp0 n error) := by
  obtain ⟨esp, ss, hr⟩ := c.onKernelStack_regs esp0
  unfold entered deliver words wordsBefore
  dsimp only
  rw [run_stub, pushes_pushes, run_alltraps, hr]
  simp only [List.append_assoc]

theorem entered_stack (c : Cpu) (esp0 : UInt32) (n : UInt8) (error : Option UInt32) :
    (c.entered esp0 n error).stack = WordStack.pushes ⟨c.base esp0, c.mem⟩ (c.words esp0 n error) := by
  rw [entered_eq, ← onKernelStack_stack]
  rfl

end

/-! ## the frame the handler finds -/

section
variable {c : Cpu} {esp0 : UInt32} {n : UInt8} {error : Option UInt32}

/-- with one of the two, error code or 0, there are 19 words from ring 3 and 17 from ring 0 -/
theorem words_length (c : Cpu) (esp0 : UInt32) (hfit : error.isSome = !padded n) :
    (c.wordsBefore n error).length = (if c.regs.user then 11 else 9) ∧
      (c.words esp0 n error).length = if c.regs.user then 19 else 17 := by
  unfold words wordsBefore
  by_cases hu : c.regs.user <;> cases error <;> simp_all

theorem words_sp (c : Cpu) (esp0 : UInt32) (hfit : error.isSome = !padded n) :
    ((c.onKernelStack esp0).stack.pushes (c.wordsBefore n error)).sp =
      c.base esp0 - (if c.regs.user then 44 else 36) := by
  rw [WordStack.pushes_sp_sub, (c.words_length esp0 hfit).1, onKernelStack_stack]
  by_cases hu : c.regs.user
  · rw [if_pos hu, if_pos hu]
    rfl
  · rw [if_neg hu, if_neg hu]
    rfl

/-- there is room for the words below, and for two more above -/
def Room (base : UInt32) : Prop := 76 ≤ base.toNat ∧ base.toNat + 8 < 2^32

instance (base : UInt32) : Decidable (Room base) := inferInstanceAs (Decidable (_ ∧ _))

theorem words_le (hroom : Room (c.base esp0)) (hfit : error.isSome = !padded n) :
    4 * (c.words esp0 n error).length ≤ (c.base esp0).toNat := by
  have h76 := hroom.1
  rw [(c.words_length esp0 hfit).2]
  split <;> omega

theorem entered_word (hroom : Room (c.base esp0)) (hfit : error.isSome = !padded n) (i : Nat) :
    (c.entered esp0 n error).stack.word i = (c.words esp0 n error).reverse[i]?.getD
      (WordStack.word ⟨c.base esp0, c.mem⟩ (i - if c.regs.user then 19 else 17)) := by
  rw [entered_stack, WordStack.pushes_word _ (words_le hroom hfit), (c.words_length esp0 hfit).2]

/-- the handler finds the frame of the model -/
theorem entered_frame (hroom : Room (c.base esp0)) (hfit : error.isSome = !padded n) (data : UInt8)
    (cr2 : UInt32) : (c.entered esp0 n error).frameAt = (c.trapOf esp0 error data cr2).frame n.toUInt32 := by
  have hw := entered_word hroom hfit
  have hsp := c.words_sp esp0 hfit
  unfold frameAt
  simp only [hw]
  unfold words
  rw [hsp]
  unfold wordsBefore Trap.frame trapOf
  by_cases hu : c.regs.user
  · cases error with
    | some e =>
      have hp : padded n = false := by simpa using hfit
      simp [hu, hp]
    | none =>
      have hp : padded n = true := by simpa using hfit
      simp [hu, hp]
  · -- the two words behind the frame are those on top of the interrupted stack
    have hb : (⟨c.base esp0, c.mem⟩ : WordStack) = c.stack := by
      unfold base
      rw [if_neg hu]
      rfl
    cases error with
    | some e =>
      have hp : padded n = false := by simpa using hfit
      simp [hu, hp, hb]
    | none =>
      have hp : padded n = true := by simpa using hfit
      simp [hu, hp, hb]

/-- where the frame is -/
theorem entered_esp (c : Cpu) (esp0 : UInt32) (hfit : error.isSome = !padded n) :
    (c.entered esp0 n error).regs.esp = c.base esp0 - (if c.regs.user then 76 else 68) := by
  have h : (c.entered esp0 n error).regs.esp = (c.entered esp0 n error).stack.sp := rfl
  rw [h, entered_stack, WordStack.pushes_sp_sub, (c.words_length esp0 hfit).2]
  by_cases hu : c.regs.user
  · rw [if_pos hu, if_pos hu]
    rfl
  · rw [if_neg hu, if_neg hu]
    rfl

theorem entered_room (hroom : Room (c.base esp0)) (hfit : error.isSome = !padded n) :
    (c.entered esp0 n error).regs.esp.toNat + 76 < 2^32 ∧
      (c.base esp0).toNat ≤ (c.entered esp0 n error).regs.esp.toNat + 76 ∧
      (c.entered esp0 n error).regs.esp.toNat + 76 ≤ (c.base esp0).toNat + 8 := by
  obtain ⟨h76, h8⟩ := hroom
  rw [entered_esp c esp0 hfit]
  by_cases hu : c.regs.user
  · have hle : (76 : UInt32) ≤ c.base esp0 := h76
    rw [if_pos hu, UInt32.toNat_sub_of_le _ _ hle]
    have e : (76 : UInt32).toNat = 76 := rfl
    omega
  · have hle : (68 : UInt32) ≤ c.base esp0 := Nat.le_trans (by decide : 68 ≤ 76) h76
    rw [if_neg hu, UInt32.toNat_sub_of_le _ _ hle]
    have e : (68 : UInt32).toNat = 68 := rfl
    omega

theorem entered_ss (c : Cpu) (esp0 : UInt32) (n : UInt8) (error : Option UInt32) :
    (c.entered esp0 n error).regs.ss = if c.regs.user then 0x10 else c.regs.ss := by
  rw [entered_eq]
  show (c.onKernelStack esp0).regs.ss = _
  unfold onKernelStack
  by_cases hu : c.regs.user
  · rw [if_pos hu, if_pos hu]
  · rw [if_neg hu, if_neg hu]

end

/-! ## the way back -/

/-- what `trapret` pops; on the way to ring 0 the stack pointer is the one behind the frame -/
theorem run_trapret (c : Cpu) (hroom : c.regs.esp.toNat + 76 ≤ 2^32) :
    c.run trapretCode = ⟨{ trapret c.frameAt with
      esp := if c.frameAt.oldCs &&& 3 = 3 then c.frameAt.oldEsp else c.regs.esp + 68
      ss := if c.frameAt.oldCs &&& 3 = 3 then c.frameAt.oldSs else c.regs.ss }, c.mem⟩ := by
  have hword : ∀ k i, k ≤ 14 → WordStack.word ⟨c.regs.esp + UInt32.ofNat (4 * k), c.mem⟩ i = c.stack.word (k + i) :=
    fun k i hk => WordStack.word_add (by omega) i
  -- where the segment registers are popped, and where `iret` finds its words
  have hgs : WordStack.word ⟨c.regs.esp + 32, c.mem⟩ 0 = c.stack.word 8 := hword 8 0 (by decide)
  have hfs : WordStack.word ⟨c.regs.esp + (32 + 4), c.mem⟩ 0 = c.stack.word 9 := hword 9 0 (by decide)
  have hes : WordStack.word ⟨c.regs.esp + (32 + (4 + 4)), c.mem⟩ 0 = c.stack.word 10 := hword 10 0 (by decide)
  have hds : WordStack.word ⟨c.regs.esp + (32 + (4 + (4 + 4))), c.mem⟩ 0 = c.stack.word 11 := hword 11 0 (by decide)
  have hiret : ∀ i, WordStack.word ⟨c.regs.esp + (32 + (4 + (4 + (4 + (4 + 8))))), c.mem⟩ i = c.stack.word (14 + i) :=
    fun i => hword 14 i (by decide)
  have hstack : (⟨c.regs.esp, c.mem⟩ : WordStack) = c.stack := rfl
  have hesp : c.regs.esp + (32 + (4 + (4 + (4 + (4 + (8 + 12)))))) = c.regs.esp + 68 := rfl
  unfold run trapretCode
  simp only [List.foldl_cons, List.foldl_nil, exec, SegmentRegister.set, stack, UInt32.add_assoc, hgs, hfs, hes, hds,
    hiret, hesp]
  rw [hstack]
  by_cases hu : c.stack.word 15 &&& 3 = 3
  · have hu' : c.frameAt.oldCs &&& 3 = 3 := hu
    rw [if_pos hu, if_pos hu', if_pos hu']
    rfl
  · have hu' : ¬ c.frameAt.oldCs &&& 3 = 3 := hu
    rw [if_neg hu, if_neg hu', if_neg hu']
    rfl

/-- `trapret` on the frame, with the kernel's stack segment and `unused_esp` as `pushal` left it -/
theorem exec_trapret (c : Cpu) (hroom : c.regs.esp.toNat + 76 ≤ 2^32) (hss : c.regs.ss = 0x10)
    (hesp : c.frameAt.unusedEsp = c.regs.esp + 32) : c.run trapretCode = ⟨trapret c.frameAt, c.mem⟩ := by
  have e : c.regs.esp + 68 = c.frameAt.unusedEsp + 36 := by
    rw [hesp]
    grind
  rw [run_trapret c hroom, e, hss]
  rfl

end Cpu

/-! ## `interrupt_handler` between the two -/

namespace Cpu

/-- the words of the frame, from its last one down -/
def frameWords (tf : TrapFrame) : List UInt32 :=
  [tf.oldSs, tf.oldEsp, tf.oldEflags, tf.oldCs, tf.returnAddr, tf.errorCode, tf.conditionCode, tf.ds, tf.es, tf.fs,
    tf.gs, tf.eax, tf.ecx, tf.edx, tf.ebx, tf.unusedEsp, tf.ebp, tf.esi, tf.edi]

/-- `*tf` is written -/
def store (c : Cpu) (tf : TrapFrame) : Cpu :=
  { c with mem := (WordStack.pushes ⟨c.regs.esp + 76, c.mem⟩ (frameWords tf)).mem }

/-- an interrupt of vector `n`, from the delivery to the code that goes on after `iret` -/
def trap (c : Cpu) (s : Kernel) (n : UInt8) (error : Option UInt32) (data : UInt8) (cr2 : UInt32) :
    Except Fatal (Kernel × Cpu) := do
  let e := c.entered s.tssEsp0 n error
  let (u, tf) ← interruptHandler s e.frameAt data cr2
  .ok (u, (e.store tf).run trapretCode)

end Cpu

/-- the handler leaves `unused_esp` of the frame alone -/
def KeepsEsp (tf : TrapFrame) (x : Except Fatal (Kernel × TrapFrame)) : Prop :=
  ∀ r, x = .ok r → r.2.unusedEsp = tf.unusedEsp

section
variable {tf : TrapFrame} {α : Type}

theorem keepsEsp_ok {s : Kernel} {tf' : TrapFrame} (h : tf'.unusedEsp = tf.unusedEsp) :
    KeepsEsp tf (.ok (s, tf')) := fun r hr => by
  rw [← Except.ok.inj hr]
  exact h

theorem keepsEsp_error (e : Fatal) : KeepsEsp tf (.error e) := fun r hr => by cases hr

theorem keepsEsp_bind {x : Except Fatal α} {f : α → Except Fatal (Kernel × TrapFrame)}
    (h : ∀ a, KeepsEsp tf (f a)) : KeepsEsp tf (x >>= f) := by
  cases x with
  | error e => exact keepsEsp_error e
  | ok a => exact h a

theorem keepsEsp_timer (s : Kernel) (tf : TrapFrame) : KeepsEsp tf (s.timerInterrupt tf) := by
  unfold Kernel.timerInterrupt
  refine keepsEsp_bind fun u => ?_
  by_cases h : u.currentControlFlow ≠ .processThread
  · rw [if_pos h]
    exact keepsEsp_ok rfl
  · rw [if_neg h]
    exact keepsEsp_bind fun p => keepsEsp_bind fun v => keepsEsp_ok rfl

theorem keepsEsp_hardware (s : Kernel) (tf : TrapFrame) (data : UInt8) :
    KeepsEsp tf (hardwareInterruptHandler s tf data) := by
  unfold hardwareInterruptHandler
  dsimp only
  split
  · exact keepsEsp_timer s tf
  · exact keepsEsp_bind fun u => keepsEsp_ok rfl
  · exact keepsEsp_error _

theorem keepsEsp_system (s : Kernel) (tf : TrapFrame) : KeepsEsp tf (systemEntry s tf) := by
  unfold systemEntry
  split
  · exact keepsEsp_ok rfl
  · exact keepsEsp_ok rfl
  · exact keepsEsp_bind fun u => keepsEsp_ok rfl
  · exact keepsEsp_bind fun u => keepsEsp_bind fun v => keepsEsp_ok rfl
  · refine keepsEsp_bind fun u => keepsEsp_bind fun p => ?_
    split
    · exact keepsEsp_error _
    · exact keepsEsp_bind fun v => keepsEsp_ok rfl
  · split
    · exact keepsEsp_error _
    · exact keepsEsp_bind fun p => keepsEsp_bind fun v => keepsEsp_ok rfl
  · exact keepsEsp_error _

theorem keepsEsp_handler (s : Kernel) (tf : TrapFrame) (data : UInt8) (cr2 : UInt32) :
    KeepsEsp tf (interruptHandler s tf data cr2) := by
  unfold interruptHandler
  dsimp only
  split
  · exact keepsEsp_ok rfl
  · split
    · exact keepsEsp_bind fun u => keepsEsp_ok rfl
    · split
      · exact keepsEsp_system s tf
      · split
        · intro r hr
          cases h : hardwareInterruptHandler s tf data with
          | error e =>
            rw [h] at hr
            cases hr
          | ok q =>
            rw [h] at hr
            have hq := keepsEsp_hardware s tf data q h
            replace hr : (if q.1.returnToProcess then _ else _) = Except.ok r := hr
            split at hr <;> · rw [← Except.ok.inj hr]; exact hq
        · exact keepsEsp_ok rfl

end

namespace Cpu

section
variable {c : Cpu} {esp0 : UInt32} {n : UInt8} {error : Option UInt32}

theorem toNat_add_76 {sp : UInt32} (h : sp.toNat + 76 < 2^32) : (sp + 76).toNat = sp.toNat + 76 := by
  rw [UInt32.toNat_add]
  exact Nat.mod_eq_of_lt h

theorem store_stack (c : Cpu) (tf : TrapFrame) :
    (c.store tf).stack = WordStack.pushes ⟨c.regs.esp + 76, c.mem⟩ (frameWords tf) := by
  have hlen : (frameWords tf).length = 19 := rfl
  have hsp : (WordStack.pushes ⟨c.regs.esp + 76, c.mem⟩ (frameWords tf)).sp = c.regs.esp := by
    rw [WordStack.pushes_sp_sub, hlen]
    show c.regs.esp + 76 - 4 * UInt32.ofNat 19 = c.regs.esp
    grind
  exact congrArg (fun sp => WordStack.mk sp (WordStack.pushes ⟨c.regs.esp + 76, c.mem⟩ (frameWords tf)).mem) hsp.symm

/-- the frame that was written is the one in memory -/
theorem store_frameAt (hroom : c.regs.esp.toNat + 76 < 2^32) (tf : TrapFrame) : (c.store tf).frameAt = tf := by
  have hsp := toNat_add_76 hroom
  have hlen : (frameWords tf).length = 19 := rfl
  have hw : ∀ i, (c.store tf).stack.word i =
      (frameWords tf).reverse[i]?.getD (WordStack.word ⟨c.regs.esp + 76, c.mem⟩ (i - 19)) := by
    intro i
    rw [store_stack, WordStack.pushes_word _ (by rw [hlen, hsp]; omega), hlen]
  unfold frameAt
  simp [hw, frameWords]

theorem store_apart (hroom : c.regs.esp.toNat + 76 < 2^32) (tf : TrapFrame) {x : Nat}
    (hx : x < c.regs.esp.toNat ∨ c.regs.esp.toNat + 76 ≤ x) : (c.store tf).mem x = c.mem x := by
  have hsp := toNat_add_76 hroom
  have hlen : (frameWords tf).length = 19 := rfl
  unfold store
  dsimp only
  rw [WordStack.pushes_apart (frameWords tf) (by rw [hlen, hsp]; omega) (by rw [hlen, hsp]; omega)]

theorem entered_apart (hroom : Room (c.base esp0)) (hfit : error.isSome = !padded n) {x : Nat}
    (hx : x < (c.base esp0).toNat - 76 ∨ (c.base esp0).toNat ≤ x) : (c.entered esp0 n error).mem x = c.mem x := by
  have hlen := (c.words_length esp0 hfit).2
  have h : (c.entered esp0 n error).mem = (c.entered esp0 n error).stack.mem := rfl
  rw [h, entered_stack]
  refine WordStack.pushes_apart _ (words_le hroom hfit) ?_
  show x < (c.base esp0).toNat - 4 * (c.words esp0 n error).length ∨ (c.base esp0).toNat ≤ x
  have hle : (c.words esp0 n error).length ≤ 19 := by
    rw [hlen]
    split <;> omega
  omega

/-- the frame that the handler leaves at `esp` is what `trapret` takes -/
theorem store_trapret {s : Kernel} (hroom : Room (c.base s.tssEsp0)) (hfit : error.isSome = !padded n)
    (hss : c.regs.user ∨ c.regs.ss = 0x10) {data : UInt8} {cr2 : UInt32} {u : Kernel} {tf : TrapFrame}
    (hok : interruptHandler s (c.entered s.tssEsp0 n error).frameAt data cr2 = .ok (u, tf)) :
    ((c.entered s.tssEsp0 n error).store tf).run trapretCode =
      ⟨trapret tf, ((c.entered s.tssEsp0 n error).store tf).mem⟩ := by
  have hlow := (entered_room hroom hfit).1
  have hregs : ((c.entered s.tssEsp0 n error).store tf).regs = (c.entered s.tssEsp0 n error).regs := rfl
  have htf := store_frameAt hlow tf
  have h := exec_trapret ((c.entered s.tssEsp0 n error).store tf) ?_ ?_ ?_
  · rw [h, htf]
  · rw [hregs]
    exact Nat.le_of_lt hlow
  · rw [hregs, entered_ss]
    by_cases hu : c.regs.user
    · rw [if_pos hu]
    · rw [if_neg hu]
      exact hss.resolve_left hu
  · -- the handler does not write `unused_esp`
    have hkept := keepsEsp_handler s _ data cr2 _ hok
    rw [htf, hkept, hregs, entered_frame hroom hfit data cr2, entered_esp c _ hfit]
    show c.base s.tssEsp0 - (if c.regs.user then 44 else 36) =
      c.base s.tssEsp0 - (if c.regs.user then 76 else 68) + 32
    split <;> grind

/-- The words do what `Kernel.trap` says: the kernel afterwards and all registers are the same, and the memory is
the same but for the 76 bytes below the stack pointer and the two words above it. -/
theorem trap_refines (s : Kernel) (c : Cpu) (n : UInt8) (error : Option UInt32) (data : UInt8) (cr2 : UInt32)
    (hroom : Room (c.base s.tssEsp0)) (hfit : error.isSome = !padded n) (hss : c.regs.user ∨ c.regs.ss = 0x10) :
    s.trap n.toUInt32 (c.trapOf s.tssEsp0 error data cr2) =
      (c.trap s n error data cr2).map (fun r => { r.1 with cpu := r.2.regs }) ∧
    ∀ r, c.trap s n error data cr2 = .ok r → ∀ x, x < (c.base s.tssEsp0).toNat - 76 ∨
      (c.base s.tssEsp0).toNat + 8 ≤ x → r.2.mem x = c.mem x := by
  have hframe := entered_frame hroom hfit data cr2
  have hdata : (c.trapOf s.tssEsp0 error data cr2).data = data := rfl
  have hcr2 : (c.trapOf s.tssEsp0 error data cr2).cr2 = cr2 := rfl
  unfold Kernel.trap trap
  dsimp only
  rw [← hframe, hdata, hcr2]
  cases h : interruptHandler s (c.entered s.tssEsp0 n error).frameAt data cr2 with
  | error e =>
    refine ⟨rfl, fun r hr => ?_⟩
    cases hr
  | ok q =>
    obtain ⟨u, tf⟩ := q
    have hback := store_trapret hroom hfit hss h
    refine ⟨?_, fun r hr x hx => ?_⟩
    · show Except.ok _ = Except.ok { u with cpu := (((c.entered s.tssEsp0 n error).store tf).run trapretCode).regs }
      rw [hback]
    · obtain ⟨hlow, hge, hle⟩ := entered_room hroom hfit
      rw [← Except.ok.inj hr]
      show (((c.entered s.tssEsp0 n error).store tf).run trapretCode).mem x = c.mem x
      rw [hback]
      show ((c.entered s.tssEsp0 n error).store tf).mem x = c.mem x
      rw [store_apart hlow tf (by omega), entered_apart hroom hfit (by omega)]

end

/-- code of ring 0 at address 1, with a stack -/
def kernelCode : Cpu where
  regs := { edi := 0, esi := 0, ebp := 0, esp := 0x1000, ebx := 0, edx := 0, ecx := 0, eax := 0, gs := 0x10
            fs := 0x10, es := 0x10, ds := 0x10, ss := 0x10, cs := 8, eip := 1, eflags := 2 }
  mem := fun _ => 0

theorem trap_refines_timer : (Kernel.boot Kernel.smallMachine).trap 0x30
      (kernelCode.trapOf (Kernel.boot Kernel.smallMachine).tssEsp0 none 0 0) =
    (kernelCode.trap (Kernel.boot Kernel.smallMachine) 0x30 none 0 0).map (fun r => { r.1 with cpu := r.2.regs }) :=
  (trap_refines (Kernel.boot Kernel.smallMachine) kernelCode 0x30 none 0 0 (by decide) rfl (.inr rfl)).1

/-! ## an interrupt whose handler does nothing -/

/-- with one of the two, error code or 0, all registers come back -/
theorem resumes {c : Cpu} {esp0 : UInt32} {n : UInt8} {error : Option UInt32} (hroom : Room (c.base esp0))
    (hfit : error.isSome = !padded n) : ((c.entered esp0 n error).run trapretCode).regs = c.regs := by
  have hlow := (entered_room hroom hfit).1
  rw [run_trapret _ (Nat.le_of_lt hlow), entered_frame hroom hfit 0 0, entered_esp c esp0 hfit, entered_ss]
  unfold trapret Trap.frame trapOf
  dsimp only
  by_cases hu : c.regs.user
  · have hu' : c.regs.cs &&& 3 = 3 := hu
    rw [if_pos hu', if_pos hu', if_pos hu, if_pos hu]
  · have hu' : ¬ c.regs.cs &&& 3 = 3 := hu
    have e : c.base esp0 - 68 + 68 = c.regs.esp := by
      rw [UInt32.sub_add_cancel]
      exact if_neg hu
    rw [if_neg hu', if_neg hu', if_neg hu, if_neg hu, e]

/-- with both, or none, `iret` goes to the word next to that address -/
theorem resumes_elsewhere {n : UInt8} {error : Option UInt32} (hfit : error.isSome = padded n) :
    ((kernelCode.entered 0 n error).run trapretCode).regs.eip = error.getD 8 := by
  have hbase : (kernelCode.base 0).toNat = 0x1000 := rfl
  have hwords : kernelCode.words 0 n error = [2, 8, 1] ++ error.toList ++ (if padded n then [0] else []) ++
      [n.toUInt32] ++ [0x10, 0x10, 0x10, 0x10] ++ [0, 0, 0, 0,
        ((kernelCode.onKernelStack 0).stack.pushes (kernelCode.wordsBefore n error)).sp, 0, 0, 0] := rfl
  have hlen : (kernelCode.words 0 n error).length ≤ 18 := by
    rw [hwords, ← hfit]
    cases error with
    | some e => exact Nat.le_refl 18
    | none => exact Nat.le_add_right 16 2
  have hsp : (kernelCode.entered 0 n error).stack.sp.toNat = 0x1000 - 4 * (kernelCode.words 0 n error).length := by
    rw [entered_stack, WordStack.pushes_sp _ (by rw [hbase]; omega)]
    rfl
  have hesp : (kernelCode.entered 0 n error).regs.esp.toNat + 76 ≤ 2^32 := by
    have h : (kernelCode.entered 0 n error).regs.esp.toNat = 0x1000 - 4 * (kernelCode.words 0 n error).length := hsp
    omega
  rw [run_trapret _ hesp]
  show (kernelCode.entered 0 n error).stack.word 14 = error.getD 8
  rw [entered_stack, WordStack.pushes_word _ (by rw [hbase]; omega), hwords, ← hfit]
  cases error with
  | some e => rfl
  | none => rfl

/-- Interrupts of a vector, for which the CPU pushes an error code or not, come back to the interrupted code with
all registers exactly if the stub pushes the 0 for a vector without error code and only there. -/
theorem resumes_iff (n : UInt8) (pushes : Bool) :
    (∀ (c : Cpu) (esp0 : UInt32) (error : Option UInt32), error.isSome = pushes → Room (c.base esp0) →
      ((c.entered esp0 n error).run trapretCode).regs = c.regs) ↔ pushes = !padded n := by
  refine ⟨fun h => ?_, fun h c esp0 error herror hroom => resumes hroom (herror.trans h)⟩
  by_contra hne
  have hsame : pushes = padded n := by
    cases pushes <;> cases hp : padded n <;> simp_all
  have hsome : ∀ b : Bool, (if b then some (2 : UInt32) else none).isSome = b := by decide
  have hback := h kernelCode 0 (if pushes then some 2 else none) (hsome pushes) (by decide)
  have helse := resumes_elsewhere ((hsome pushes).trans hsame)
  rw [hback] at helse
  cases pushes with
  | false => exact absurd helse (by decide)
  | true => exact absurd helse (by decide)

end Cpu
end StarOS
