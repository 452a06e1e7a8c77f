import StarOS.Kernel.Queues

/-!
# The interrupt gates (`init_interrupt_handler`) and `int n`

A process enters the kernel with `int n`, which the CPU admits if the gate of `n` has `dpl` 3;
otherwise it raises a general protection fault.

* `initInterruptHandler`  the loop that fills the table, one descriptor carried through it;
* `initInterruptHandler_eq`   the gates it leaves: `dpl` is set at 32 and never reset, so every gate
                          from 32 on admits a process;
* `Event`, `Machine.step` the steps of the kernel, with any `int n` in place of the system call, and the wait
                          of the scheduler between two rounds;
* `confined_iff`          in every run, user instructions enter through gate 32 only and touch no
                          clock and no key exactly if no process executes `int n` with `n > 32`.

`Count_down` is not only counted down by the timer: `usleep(1000)` sets it in each round of the scheduler.
-/

namespace StarOS
open Lib

structure GateDescriptor where
  offsetLow : Nat
  selector : Nat
  reserved : Nat
  type : Nat
  dpl : Nat
  p : Nat
  offsetHigh : Nat
deriving DecidableEq

def idtSize : Nat := 256

/-- one round of the loop: the gate `i`, written from the descriptor of the round before -/
def fillGate (vectors : Nat → UInt32) (st : GateDescriptor × List GateDescriptor) (i : Nat) :
    GateDescriptor × List GateDescriptor :=
  let handlerPointer := (vectors i).toNat
  let desc := { st.1 with
    offsetLow := handlerPointer % 2^16
    offsetHigh := (handlerPointer >>> 16) % 2^16 }
  let desc := if i = 32 then { desc with dpl := 0b11 } else desc
  (desc, st.2 ++ [desc])

/-- the table that `init_interrupt_handler` fills; `vectors` are the addresses of the stubs -/
def initInterruptHandler (vectors : Nat → UInt32) : List GateDescriptor :=
  ((List.range idtSize).foldl (fillGate vectors) (⟨0, 0x0008, 0, 0b01110, 0b00, 0b1, 0⟩, [])).2

/-- the gate `i` as it is filled -/
def gate (vectors : Nat → UInt32) (i : Nat) : GateDescriptor where
  offsetLow := (vectors i).toNat % 2^16
  selector := 0x0008
  reserved := 0
  type := 0b01110
  dpl := if i < 32 then 0 else 3
  p := 1
  offsetHigh := ((vectors i).toNat >>> 16) % 2^16

theorem fillGate_foldl (vectors : Nat → UInt32) (n : Nat) :
    ∃ lo hi, (List.range n).foldl (fillGate vectors) (⟨0, 0x0008, 0, 0b01110, 0b00, 0b1, 0⟩, [])
      = (⟨lo, 0x0008, 0, 0b01110, if n ≤ 32 then 0 else 3, 0b1, hi⟩, (List.range n).map (gate vectors)) := by
  induction n with
  | zero => exact ⟨0, 0, rfl⟩
  | succ n ih =>
    obtain ⟨lo, hi, ih⟩ := ih
    refine ⟨(vectors n).toNat % 2^16, ((vectors n).toNat >>> 16) % 2^16, ?_⟩
    rw [List.range_succ, List.foldl_append, ih, List.map_append]
    show fillGate vectors _ n = _
    rw [fillGate]
    -- the descriptor that goes on to the next round is the gate just written
    rcases Nat.lt_trichotomy n 32 with h | rfl | h
    · have h1 : ¬ n = 32 := by omega
      have h2 : n ≤ 32 := by omega
      have h3 : n + 1 ≤ 32 := by omega
      simp only [gate, List.map_cons, List.map_nil, if_neg h1, if_pos h2, if_pos h3, if_pos h]
    · rfl
    · have h1 : ¬ n = 32 := by omega
      have h2 : ¬ n ≤ 32 := by omega
      have h3 : ¬ n + 1 ≤ 32 := by omega
      have h4 : ¬ n < 32 := by omega
      simp only [gate, List.map_cons, List.map_nil, if_neg h1, if_neg h2, if_neg h3, if_neg h4]

theorem initInterruptHandler_eq (vectors : Nat → UInt32) :
    initInterruptHandler vectors = (List.range idtSize).map (gate vectors) := by
  obtain ⟨lo, hi, h⟩ := fillGate_foldl vectors idtSize
  rw [initInterruptHandler, h]

/-- the CPU lets a process execute `int n` -/
def admits (idt : List GateDescriptor) (n : UInt8) : Bool :=
  match idt[n.toNat]? with
  | some g => g.dpl == 3
  | none => false

theorem admits_iff (vectors : Nat → UInt32) (n : UInt8) :
    admits (initInterruptHandler vectors) n = true ↔ 32 ≤ n := by
  have hn : n.toNat < idtSize := n.toNat_lt
  have hg : (initInterruptHandler vectors)[n.toNat]? = some (gate vectors n.toNat) := by
    rw [initInterruptHandler_eq, List.getElem?_map, List.getElem?_range hn]
    rfl
  rw [admits, hg]
  show ((if n.toNat < 32 then 0 else 3) == 3) = true ↔ 32 ≤ n.toNat
  by_cases h : n.toNat < 32
  · rw [if_pos h]
    exact ⟨fun h0 => absurd h0 (by decide), fun h' => by omega⟩
  · rw [if_neg h]
    exact ⟨fun _ => by omega, fun _ => rfl⟩

/-! ## the machine with `int n` -/

/-- a step: an instruction `int n` of the process that runs, the call `usleep(1000)` of the scheduler, or one
of the kernel's steps that is no system call -/
inductive Event where
  | int (n : UInt8) (t : Trap)
  | wait
  | other (a : Action)

/-- the interrupt was raised by hardware -/
def Event.Hardware (e : Event) : Prop :=
  (∃ t, e = .other (.timer t)) ∨ ∃ t, e = .other (.keyboard t)

def generalProtection : UInt32 := 13

namespace Machine

def step (idt : List GateDescriptor) (s : Kernel) : Event → Except Fatal Kernel
  | .int n t => s.trap (if admits idt n then n.toUInt32 else generalProtection) t
  | .wait => usleep s 1000
  | .other a => s.step a

def Enabled (s : Kernel) : Event → Prop
  | .int _ t => t.regs.user ∧ s.UserMode
  | .wait => ¬ s.UserMode
  | .other a => s.Enabled a ∧ ∀ t, a ≠ .syscall t

def Step (idt : List GateDescriptor) (s : Kernel) (e : Event) (t : Kernel) : Prop :=
  Enabled s e ∧ step idt s e = .ok t

/-- the clocks that are set, `Count_down`, `SCAN_CODE` and `Key_pressed_table` are the same -/
structure Untouched (s t : Kernel) : Prop where
  countDown : t.countDown = s.countDown
  scanCode : t.keyboard.scanCode = s.keyboard.scanCode
  keys : t.keyboard.keyPressedTable = s.keyboard.keyPressedTable
  clocks : s.waitingSleepQueue <+: t.waitingSleepQueue

/-- what the step may do if it is a user instruction, or one of the kernel's own: only the wait of the
scheduler sets `Count_down`, and nothing else -/
structure Confined (idt : List GateDescriptor) (s : Kernel) (e : Event) : Prop where
  vector : ∀ n t, e = .int n t → Enabled s e → admits idt n = true → n.toNat = syscallIntId
  supported : ∀ n t, e = .int n t → Enabled s e → ∀ irq, step idt s e ≠ .error (.unsupportedIRQ irq)
  untouched : ¬ e.Hardware → e ≠ .wait → ∀ t, Step idt s e t → Untouched s t
  wait : e = .wait → ∀ t, Step idt s e t → t = { s with countDown := 1 }

/-- no process executes `int n` with a vector above that of the system call -/
def SystemCallsOnly (s : Kernel) (e : Event) : Prop := ∀ n t, e = .int n t → Enabled s e → n ≤ 32

section
variable {s : Kernel} {t : Trap}

theorem fault_eq (s : Kernel) (t : Trap) :
    s.trap generalProtection t = .ok { s with cpu := trapret (t.frame generalProtection) } := rfl

theorem syscall_supported (hi : s.Inv) (hu : s.UserMode) (irq : Nat) :
    s.trap 32 t ≠ .error (.unsupportedIRQ irq) := by
  obtain ⟨hc, p, hr, hp⟩ := hi.user hu
  have hm : p ∈ s.runningQueue := hr ▸ List.mem_singleton_self p
  by_cases h4 : t.regs.eax = 4
  · rcases Kernel.gets_eq hc hp hm h4 with h | h <;> simp [h]
  · by_cases h5 : t.regs.eax = 5
    · simp [Kernel.sleep_eq hc hp hm h5]
    · rcases Kernel.syscall_other hp h4 h5 with ⟨eax, h⟩ | ⟨n, h⟩ | h <;> simp [h]

theorem outcome_untouched {a : Action} {u : Kernel} (ho : Kernel.Outcome s a u)
    (ha : ¬ (Event.other a).Hardware) : Untouched s u := by
  cases ho with
  | enqueued => exact ⟨rfl, rfl, rfl, List.prefix_rfl⟩
  | idle => exact ⟨rfl, rfl, rfl, List.prefix_rfl⟩
  | dispatched => exact ⟨rfl, rfl, rfl, List.prefix_rfl⟩
  | ticked x => exact absurd (Or.inl ⟨x, rfl⟩) ha
  | preempted x => exact absurd (Or.inl ⟨x, rfl⟩) ha
  | typed x => exact absurd (Or.inr ⟨x, rfl⟩) ha
  | answered x => exact absurd (Or.inr ⟨x, rfl⟩) ha
  | served => exact ⟨rfl, rfl, rfl, List.prefix_rfl⟩
  | gets => exact ⟨rfl, rfl, rfl, List.prefix_rfl⟩
  | sleep => exact ⟨rfl, rfl, rfl, List.prefix_append _ _⟩

end

section
variable (vectors : Nat → UInt32) {s : Kernel} {e : Event}

theorem wait_eq (idt : List GateDescriptor) (s : Kernel) : step idt s .wait = .ok { s with countDown := 1 } := rfl

/-- an `int` up to 32 is the system call, or a fault that the kernel ignores -/
theorem int_cases {n : UInt8} (hn : n ≤ 32) (t : Trap) :
    step (initInterruptHandler vectors) s (.int n t) = s.step (.syscall t) ∨
    step (initInterruptHandler vectors) s (.int n t)
      = .ok { s with cpu := trapret (t.frame generalProtection) } := by
  by_cases ha : admits (initInterruptHandler vectors) n = true
  · have e : n = 32 := UInt8.le_antisymm hn ((admits_iff vectors n).mp ha)
    left
    rw [step, if_pos ha, e]
    rfl
  · right
    rw [step, if_neg ha, fault_eq]

theorem inv_fault (hi : s.Inv) {t : Trap} (ht : t.regs.user) (hu : s.UserMode) :
    { s with cpu := trapret (t.frame generalProtection) }.Inv :=
  { hi with
    placed := ⟨hi.placed.perm, hi.placed.ready, hi.placed.running, hi.placed.blocking⟩
    thread := Or.inl ⟨ht, hi.user hu⟩ }

theorem inv_step {u : Kernel} (hi : s.Inv) (hc : SystemCallsOnly s e)
    (hs : Step (initInterruptHandler vectors) s e u) : u.Inv := by
  obtain ⟨hen, hs⟩ := hs
  cases e with
  | other a => exact Kernel.inv_step hi ⟨hen.1, hs⟩
  | wait =>
    cases (wait_eq _ s).symm.trans hs
    exact hi.countDown 1
  | int n t =>
    rcases int_cases vectors (s := s) (hc n t rfl hen) t with h | h
    · exact Kernel.inv_step hi (a := .syscall t) ⟨hen, h ▸ hs⟩
    · cases h.symm.trans hs
      exact inv_fault hi hen.1 hen.2

theorem confined_of_systemCallsOnly (hi : s.Inv) (hc : SystemCallsOnly s e) :
    Confined (initInterruptHandler vectors) s e where
  vector := by
    intro n t he hen ha
    have h1 := (admits_iff vectors n).mp ha
    have h2 := hc n t he hen
    exact Nat.le_antisymm h2 h1
  supported := by
    intro n t he hen irq
    subst he
    rcases int_cases vectors (s := s) (hc n t rfl hen) t with h | h <;> rw [h]
    · exact syscall_supported hi hen.2 irq
    · simp
  untouched := by
    intro hh hw u hs
    obtain ⟨hen, hs⟩ := hs
    cases e with
    | wait => exact absurd rfl hw
    | other a => exact outcome_untouched (Kernel.Step.outcome ⟨hen.1, hs⟩ hi) hh
    | int n t =>
      rcases int_cases vectors (s := s) (hc n t rfl hen) t with h | h
      · have ho := Kernel.Step.outcome (a := .syscall t) ⟨hen, h ▸ hs⟩ hi
        refine outcome_untouched ho ?_
        rintro (⟨x, hx⟩ | ⟨x, hx⟩) <;> cases hx
      · cases h.symm.trans hs
        exact ⟨rfl, rfl, rfl, List.prefix_rfl⟩
  wait := by
    rintro rfl u ⟨-, hs⟩
    exact (Except.ok.inj ((wait_eq _ s).symm.trans hs)).symm

/-- **In every run, `int n` of a process enters `interrupt_handler` through the gate of the system
call only, never reaches the halt for an unsupported interrupt, and clocks and keys change at
interrupts of the hardware only (`Count_down` also in the wait of the scheduler); exactly if no process
executes `int n` with `n > 32`.** -/
theorem confined_iff (b : BootState) (es : List Event) :
    Along (Step (initInterruptHandler vectors)) (Confined (initInterruptHandler vectors)) (.boot b) es ↔
      Along (Step (initInterruptHandler vectors)) SystemCallsOnly (.boot b) es := by
  refine Along.iff_of_inv (I := Kernel.Inv) (P := fun _ _ => True)
    (fun s e t hi _ hc hs => inv_step vectors hi hc hs) (fun s e hi _ => ?_) (Kernel.inv_boot b)
    (along_of_labels (fun _ _ _ => trivial) _)
  refine ⟨fun h n t he hen => ?_, confined_of_systemCallsOnly vectors hi⟩
  by_contra hgt
  have hlt : 32 < n := UInt8.not_le.mp hgt
  have hv := h.vector n t he hen ((admits_iff vectors n).mpr (UInt8.le_of_lt hlt))
  have hlt : 32 < n.toNat := hlt
  exact absurd hv (Nat.ne_of_gt hlt)

end

/-- **A process forges a timer interrupt with `int 0x30`: `Count_down` goes down.** -/
theorem timer_forged : ¬ ∀ (vectors : Nat → UInt32) (b : BootState) (es : List Event),
    Along (Step (initInterruptHandler vectors)) (Confined (initInterruptHandler vectors)) (.boot b) es := by
  intro hall
  have h := hall (fun _ => 0) Kernel.smallMachine [.other (.execv Kernel.smallImage),
    .other (.dispatch Kernel.ring0 0x202), .int 0x30 (Kernel.trapOf Kernel.ring3 0)]
  have h := h.2 _ ⟨⟨trivial, fun t e => by cases e⟩, rfl⟩
  have h := h.2 Kernel.oneRuns ⟨⟨by decide, fun t e => by cases e⟩, rfl⟩
  have ha : admits (initInterruptHandler fun _ => 0) 0x30 = true := (admits_iff _ _).mpr (by decide)
  have hs : Step (initInterruptHandler fun _ => 0) Kernel.oneRuns
      (.int 0x30 (Kernel.trapOf Kernel.ring3 0))
      (Kernel.oneRuns.next (.timer (Kernel.trapOf Kernel.ring3 0))) := by
    refine ⟨⟨by decide, by decide⟩, ?_⟩
    rw [step, if_pos ha]
    rfl
  have hu := h.1.untouched (by rintro (⟨x, hx⟩ | ⟨x, hx⟩) <;> cases hx) (fun hw => by cases hw) _ hs
  exact absurd hu.countDown (by decide)

end Machine
end StarOS
