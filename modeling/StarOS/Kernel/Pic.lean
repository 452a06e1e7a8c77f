import StarOS.Kernel.Queues
import StarOS.Lib.Pic

/-!
# The interrupt controllers (`PIC.cpp`, `interrupt.cpp`, `ps2_keyboard.cpp`)

`init_PIC` programs the two controllers; the interrupts of the timer and of the keyboard end with a command to the
master; the gates of the IDT keep other interrupts out until `iret`.

* `initPIT`, `initPIC`   the writes to the ports;
* `programmed_init`    whatever the controllers held and whatever is requested between the writes, they end up
                       programmed;
* `Board`              the kernel and the controllers, `Board.Step` their steps;
* `board_step`, `interrupts_served`   **in every run interrupts stay enabled and none is left in service, so that a
                       request of the timer or of the keyboard can be taken, the timer's first; no other vector is
                       delivered, no request is lost, and none is served twice.**
-/

namespace StarOS
open Lib

/-! ## the ports -/

def pic1Command : UInt16 := 0x20
def pic1Data : UInt16 := pic1Command + 1
def pic2Command : UInt16 := 0xa0
def pic2Data : UInt16 := pic2Command + 1
def eoiCmd : UInt8 := 0x20

def icw1Icw4 : UInt8 := 0x01
def icw1Init : UInt8 := 0x10
def icw4_8086 : UInt8 := 0x01

def channel0DataPort : UInt16 := 0x40
def pitCommandPort : UInt16 := 0x43

def originFrequency : Nat := 1193182
def frequencyWanted : Nat := 1000

/-- `outb` as the controllers see it, without the wire between them -/
def outbPics (p : Pics) (w : UInt16 × UInt8) : Pics :=
  if w.1 = pic1Command then { p with master := p.master.command w.2 }
  else if w.1 = pic1Data then { p with master := p.master.data w.2 }
  else if w.1 = pic2Command then { p with slave := p.slave.command w.2 }
  else if w.1 = pic2Data then { p with slave := p.slave.data w.2 }
  else p

def outb (p : Pics) (w : UInt16 × UInt8) : Pics := p.wire (outbPics p w)

def ioWait : UInt16 × UInt8 := (0x80, 0)

/-- `none` is the halt `"invalid frequency_wanted"` -/
def initPIT : Option (List (UInt16 × UInt8)) :=
  let channel : UInt8 := 0b00
  let accessMode : UInt8 := 0b11
  let operatingMode : UInt8 := 0b011
  let bcdMode : UInt8 := 0b0
  let cmd := (channel <<< 6) + (accessMode <<< 4) + (operatingMode <<< 1) + bcdMode
  let divider := originFrequency / frequencyWanted
  if divider > 65536 ∨ divider = 1 then none
  else
    let count := UInt16.ofNat divider
    some [(pitCommandPort, cmd), (channel0DataPort, (count &&& 0xff).toUInt8), (channel0DataPort, (count >>> 8).toUInt8)]

def initPIC : Option (List (UInt16 × UInt8)) := do
  let pit ← initPIT
  return [(pic1Command, icw1Init ||| icw1Icw4), ioWait, (pic2Command, icw1Init ||| icw1Icw4), ioWait,
    (pic1Data, UInt8.ofNat pic1BaseId), ioWait, (pic2Data, UInt8.ofNat pic2BaseId), ioWait,
    (pic1Data, 4), ioWait, (pic2Data, 2), ioWait, (pic1Data, icw4_8086), ioWait, (pic2Data, icw4_8086), ioWait] ++
    pit ++ [(pic1Data, 0b11111100), (pic2Data, 0xff)]

/-! ## programming -/

/-- the timer and the keyboard are let through, and nothing is in service -/
structure Programmed (p : Pics) : Prop where
  ready : p.master.phase = .ready
  mask : p.master.imr = 0xfc
  base : p.master.base = 0x30
  cascade : p.master.cascade = 4
  /-- the end of an interrupt is a command -/
  manual : p.master.autoEoi = false
  idle : p.master.Idle
  slaveReady : p.slave.phase = .ready
  slaveMask : p.slave.imr = 0xff
  slaveBase : p.slave.base = 0x38
  slaveIdle : p.slave.Idle

inductive Programming where
  | out (w : UInt16 × UInt8)
  | request (line : Nat)

def Programming.outs : List Programming → List (UInt16 × UInt8) := List.filterMap fun
  | .out w => some w
  | .request _ => none

/-- the writes, with requests of devices between them -/
def program (p : Pics) : Programming → Pics
  | .out w => outb p w
  | .request line => p.request line

theorem Programmed.alike {p q : Pics} (h : Programmed p) (hpq : p.Alike q) : Programmed q := by
  obtain ⟨m, s, rfl⟩ := hpq
  exact ⟨h.ready, h.mask, h.base, h.cascade, h.manual, h.idle, h.slaveReady, h.slaveMask, h.slaveBase, h.slaveIdle⟩

theorem alike_outbPics {p q : Pics} (h : p.Alike q) (w : UInt16 × UInt8) : (outbPics p w).Alike (outbPics q w) := by
  obtain ⟨m, s, rfl⟩ := h
  unfold outbPics
  split
  · obtain ⟨m', hm⟩ := p.master.command_irr w.2 m
    exact ⟨m', s, by rw [hm]⟩
  split
  · exact ⟨m, s, by rw [p.master.data_irr]⟩
  split
  · obtain ⟨s', hs⟩ := p.slave.command_irr w.2 s
    exact ⟨m, s', by rw [hs]⟩
  split
  · exact ⟨m, s, by rw [p.slave.data_irr]⟩
  · exact ⟨m, s, rfl⟩

theorem alike_program {p q : Pics} (h : p.Alike q) (as : List Programming) :
    ((Programming.outs as).foldl outbPics p).Alike (as.foldl program q) := by
  induction as generalizing p q with
  | nil => exact h
  | cons a as ih =>
    cases a with
    | out w => exact ih ((alike_outbPics h w).trans (q.alike_wire _))
    | request line => exact ih (h.trans (q.alike_request line))

/-- the writes of `init_PIC` -/
theorem initPIC_eq : initPIC = some [(0x20, 0x11), (0x80, 0), (0xa0, 0x11), (0x80, 0), (0x21, 0x30), (0x80, 0),
    (0xa1, 0x38), (0x80, 0), (0x21, 4), (0x80, 0), (0xa1, 2), (0x80, 0), (0x21, 1), (0x80, 0), (0xa1, 1), (0x80, 0),
    (0x43, 0x36), (0x40, 0xa9), (0x40, 0x04), (0x21, 0xfc), (0xa1, 0xff)] := by
  decide

theorem programmed_init (p : Pics) (as : List Programming) (h : initPIC = some (Programming.outs as)) :
    Programmed (as.foldl program p) := by
  refine Programmed.alike ?_ (alike_program (.refl p) as)
  rw [initPIC_eq] at h
  rw [← Option.some.inj h]
  exact ⟨rfl, rfl, rfl, rfl, rfl, fun _ => rfl, rfl, rfl, rfl, fun _ => rfl⟩

/-! ## taking an interrupt -/

section
variable {p q : Pics} {vector : UInt8}

theorem masked_master (h : Programmed p) {line : Nat} (hl : line < 8) : p.master.masked line = true ↔ 2 ≤ line := by
  have hall : ∀ line < 8, (0xfc : UInt8).toNat.testBit line = true ↔ 2 ≤ line := by decide
  unfold Pic.masked
  rw [h.mask]
  exact hall line hl

/-- only the timer and the keyboard interrupt, the timer first -/
theorem pending_programmed (h : Programmed p) {line : Nat} : p.master.pending = some line ↔
    line < 2 ∧ p.master.irr line = true ∧ ∀ j < line, p.master.irr j = false := by
  rw [Pic.pending_idle h.idle h.ready]
  constructor
  · rintro ⟨hl, hr, hm, hj⟩
    have hlt : line < 2 := by
      by_contra hge
      have := (masked_master h hl).mpr (by omega)
      exact absurd hm (by rw [this]; exact Bool.noConfusion)
    refine ⟨hlt, hr, fun j hjl => ?_⟩
    by_contra hne
    have := (masked_master h (by omega)).mp (hj j hjl (Bool.not_eq_false _ ▸ hne))
    omega
  · rintro ⟨hl, hr, hj⟩
    refine ⟨by omega, hr, ?_, fun j hjl hrj => ?_⟩
    · by_contra hne
      have := (masked_master h (by omega)).mp (Bool.not_eq_false _ ▸ hne)
      omega
    · rw [hj j hjl] at hrj
      cases hrj

/-- the request of a line is gone -/
def served (p : Pics) (line : Nat) : Pics :=
  { p with master := { p.master with irr := Function.update p.master.irr line false } }

theorem inta_programmed (h : Programmed p) (hv : p.inta = some (vector, q)) :
    ∃ line, p.master.pending = some line ∧ vector = 0x30 + UInt8.ofNat line ∧
      q = { p with master := p.master.acknowledge line } := by
  unfold Pics.inta at hv
  cases hp : p.master.pending with
  | none =>
    rw [hp] at hv
    cases hv
  | some line =>
    have hc : p.master.cascade.toNat.testBit line = false := by
      have hall : ∀ line < 2, (4 : UInt8).toNat.testBit line = false := by decide
      rw [h.cascade]
      exact hall line ((pending_programmed h).mp hp).1
    rw [hp] at hv
    dsimp only at hv
    rw [hc, h.base] at hv
    obtain ⟨rfl, rfl⟩ := Prod.mk.inj (Option.some.inj hv)
    exact ⟨line, rfl, rfl, rfl⟩

/-- the interrupt is taken and ended -/
theorem outb_eoi (h : Programmed p) {line : Nat} (hl : line < 8) :
    outb { p with master := p.master.acknowledge line } (pic1Command, eoiCmd) = served p line := by
  have he : (p.master.acknowledge line).command eoiCmd = (p.master.acknowledge line).eoi := rfl
  have hw : outbPics { p with master := p.master.acknowledge line } (pic1Command, eoiCmd) = served p line := by
    unfold outbPics served
    rw [if_pos rfl, he, Pic.eoi_acknowledge h.idle h.manual hl]
  unfold outb Pics.wire
  rw [hw]
  refine if_neg (Bool.eq_false_iff.mp ?_)
  show (p.slave.pending.isNone && p.slave.pending.isSome) = false
  cases p.slave.pending <;> rfl

theorem Programmed.served (h : Programmed p) (line : Nat) : Programmed (served p line) :=
  h.alike ⟨_, p.slave.irr, rfl⟩

/-- a request leaves those of the timer and of the keyboard -/
theorem request_irr (p : Pics) (line : Nat) {i : Nat} (hi : i < 2) :
    (p.request line).master.irr i = (p.master.irr i || decide (i = line)) := by
  have hwire : ∀ q : Pics, (p.wire q).master.irr i = q.master.irr i := by
    intro q
    unfold Pics.wire
    split
    · exact Function.update_of_ne (Nat.ne_of_lt hi) _ _
    · rfl
  unfold Pics.request
  rw [hwire]
  by_cases hl : line < 8
  · rw [if_pos hl]
    show Function.update p.master.irr line true i = _
    by_cases e : i = line
    · subst e
      rw [Function.update_self, decide_eq_true rfl, Bool.or_true]
    · rw [Function.update_of_ne e, decide_eq_false e, Bool.or_false]
  · rw [if_neg hl, decide_eq_false (by omega), Bool.or_false]

end

/-! ## the board -/

/-- the interrupt flag -/
def Regs.interrupts (r : Regs) : Prop := r.eflags &&& 0x200 ≠ 0

/-- what `hardware_interrupt_handler` writes to the ports -/
def hardwareOuts (conditionCode : Nat) : List (UInt16 × UInt8) :=
  let irq := if pic2BaseId ≤ conditionCode then conditionCode - pic2BaseId else conditionCode - pic1BaseId
  match irq with
  -- on both ways out, to the kernel and to the scheduler
  | 0 => [(pic1Command, eoiCmd)]
  -- before the byte is decoded
  | 1 => [(pic1Command, eoiCmd)]
  | _ => []

structure Board where
  kernel : Kernel
  pics : Pics

inductive BoardAction where
  /-- a device raises its line -/
  | request (line : Nat)
  /-- the processor takes an interrupt -/
  | take (vector : UInt8) (x : Trap)
  /-- a step of the kernel or of a process -/
  | run (a : Action)

namespace Board

/-- neither the thread of the scheduler nor a process changes the flag -/
def SameFlag (s : Kernel) : Action → Prop
  | .execv _ => True
  | .dispatch kernel flags => kernel.eflags &&& 0x200 = s.cpu.eflags &&& 0x200 ∧ flags &&& 0x200 = s.cpu.eflags &&& 0x200
  | .timer x => x.regs.eflags &&& 0x200 = s.cpu.eflags &&& 0x200
  | .keyboard x => x.regs.eflags &&& 0x200 = s.cpu.eflags &&& 0x200
  | .syscall x => x.regs.eflags &&& 0x200 = s.cpu.eflags &&& 0x200

def Step (s : Board) : BoardAction → Board → Prop
  | .request line, t => line < 16 ∧ t = { s with pics := s.pics.request line }
  | .take vector x, t => s.kernel.cpu.interrupts ∧ (x.regs.user ↔ s.kernel.UserMode) ∧
      x.regs.eflags &&& 0x200 = s.kernel.cpu.eflags &&& 0x200 ∧
      ∃ pics kernel, s.pics.inta = some (vector, pics) ∧ s.kernel.trap vector.toUInt32 x = .ok kernel ∧
        t = ⟨kernel, (hardwareOuts vector.toNat).foldl outb pics⟩
  | .run a, t => (∀ x, a ≠ .timer x ∧ a ≠ .keyboard x) ∧ SameFlag s.kernel a ∧
      ∃ kernel, s.kernel.Step a kernel ∧ t = { s with kernel := kernel }

structure Inv (s : Board) : Prop where
  kernel : s.kernel.Inv
  enabled : s.kernel.cpu.interrupts
  saved : s.kernel.UserMode → s.kernel.kernelProc.interrupts
  pics : Programmed s.pics

section
variable {s t : Board} {a : Action} {u : Kernel}

/-- the flag after a step of the kernel -/
theorem flag_step (hi : s.kernel.Inv) (he : s.kernel.cpu.interrupts)
    (hk : s.kernel.UserMode → s.kernel.kernelProc.interrupts) (hf : SameFlag s.kernel a) (hs : s.kernel.Step a u) :
    u.cpu.interrupts ∧ (u.UserMode → u.kernelProc.interrupts) := by
  have hrunning : ∀ {q}, s.kernel.runningQueue = [q] → s.kernel.UserMode := by
    intro q hq
    by_contra hu
    obtain ⟨-, hnil⟩ := hi.kernel hu
    cases hq.symm.trans hnil
  have hflag : ∀ {x : UInt32}, x &&& 0x200 = s.kernel.cpu.eflags &&& 0x200 → x &&& 0x200 ≠ 0 := fun h h0 =>
    he (h.symm.trans h0)
  cases hs.outcome hi with
  | enqueued => exact ⟨he, hk⟩
  | idle => exact ⟨he, hk⟩
  | dispatched => exact ⟨hflag hf.2, fun _ => hflag hf.1⟩
  | ticked x hm hx => exact ⟨hflag hf, fun hu => absurd hu hx⟩
  | preempted x p hr => exact ⟨hk (hrunning hr), fun hu => absurd hu hi.kernel_context⟩
  | typed x r hr hm => exact ⟨hflag hf, fun hu => hk (hm.mp hu)⟩
  | answered x r p hr hm => exact ⟨hflag hf, fun hu => hk (hm.mp hu)⟩
  | served x paging eax hx hu => exact ⟨hflag hf, fun _ => hk hu⟩
  | gets x p paging hr => exact ⟨hk (hrunning hr), fun hu => absurd hu hi.kernel_context⟩
  | sleep x p hr => exact ⟨hk (hrunning hr), fun hu => absurd hu hi.kernel_context⟩

/-- the step of the kernel that answers a line -/
def answer (line : Nat) (x : Trap) : Action := if line = 0 then .timer x else .keyboard x

/-- what is taken is the first line that is requested, and its interrupt ends -/
theorem take_cases (h : s.Inv) {vector : UInt8} {x : Trap} (hs : s.Step (.take vector x) t) :
    ∃ line < 2, vector = 0x30 + UInt8.ofNat line ∧ s.pics.master.irr line = true ∧
      s.kernel.Step (answer line x) t.kernel ∧ SameFlag s.kernel (answer line x) ∧ t.pics = served s.pics line := by
  obtain ⟨-, hmode, hflag, q, k, hq, hk, rfl⟩ := hs
  obtain ⟨line, hp, rfl, rfl⟩ := inta_programmed h.pics hq
  obtain ⟨hl, hr, -⟩ := (pending_programmed h.pics).mp hp
  have hend := outb_eoi h.pics (Nat.lt_trans hl (by decide))
  refine ⟨line, hl, rfl, hr, ?_⟩
  obtain rfl | rfl : line = 0 ∨ line = 1 := by omega
  · exact ⟨⟨hmode, hk⟩, hflag, hend⟩
  · exact ⟨⟨hmode, hk⟩, hflag, hend⟩

theorem board_step {b : BoardAction} (h : s.Inv) (hs : s.Step b t) : t.Inv := by
  cases b with
  | request line =>
    obtain ⟨-, rfl⟩ := hs
    exact ⟨h.kernel, h.enabled, h.saved, h.pics.alike (s.pics.alike_request line)⟩
  | take vector x =>
    obtain ⟨line, -, -, -, hk, hflag, hpics⟩ := take_cases h hs
    obtain ⟨henabled, hsaved⟩ := flag_step h.kernel h.enabled h.saved hflag hk
    exact ⟨Kernel.inv_step h.kernel hk, henabled, hsaved, hpics ▸ h.pics.served line⟩
  | run a =>
    obtain ⟨-, hflag, k, hk, rfl⟩ := hs
    obtain ⟨henabled, hsaved⟩ := flag_step h.kernel h.enabled h.saved hflag hk
    exact ⟨Kernel.inv_step h.kernel hk, henabled, hsaved, h.pics⟩

/-- the kernel does not halt for want of a handler -/
theorem take_supported (h : s.Inv) {vector : UInt8} {q : Pics} (hv : s.pics.inta = some (vector, q)) {x : Trap}
    (hmode : x.regs.user ↔ s.kernel.UserMode) (irq : Nat) :
    s.kernel.trap vector.toUInt32 x ≠ .error (.unsupportedIRQ irq) := by
  obtain ⟨line, hp, rfl, -⟩ := inta_programmed h.pics hv
  obtain ⟨hl, -, -⟩ := (pending_programmed h.pics).mp hp
  obtain rfl | rfl : line = 0 ∨ line = 1 := by omega
  · obtain ⟨u, hu, -⟩ := Kernel.timer_outcome h.kernel (t := x) hmode
    have hu : s.kernel.trap 0x30 x = .ok u := hu
    intro he
    cases hu.symm.trans he
  · intro he
    have he : s.kernel.trap 0x31 x = .error (.unsupportedIRQ irq) := he
    cases hr : ps2KeyboardInterrupt s.kernel.keyboard x.data with
    | ok r =>
      obtain ⟨u, hu, -⟩ := Kernel.keyboard_ok h.kernel (x := x) hmode hr
      have hu : s.kernel.trap 0x31 x = .ok u := hu
      cases hu.symm.trans he
    | error e =>
      rw [Kernel.trap_keyboard_error hr] at he
      rcases interrupt_error hr with ⟨l, rfl⟩ | ⟨w, l, rfl⟩ <;> cases he

end

/-! ## counting -/

/-- the line of the timer or of the keyboard is raised -/
def requests (line : Nat) : BoardAction → Nat
  | .request l => if l = line then 1 else 0
  | _ => 0

/-- its interrupt is taken -/
def takes (line : Nat) : BoardAction → Nat
  | .take vector _ => if vector = 0x30 + UInt8.ofNat line then 1 else 0
  | _ => 0

section
variable {s t : Board} {b : BoardAction} {bs : List BoardAction} {line : Nat}

/-- one step, for a line: what is taken was requested, and what is requested waits until it is taken -/
theorem line_step (h : s.Inv) (hl : line < 2) (hs : s.Step b t) :
    takes line b + (t.pics.master.irr line).toNat ≤ requests line b + (s.pics.master.irr line).toNat ∧
    (takes line b = 0 → t.pics.master.irr line = (s.pics.master.irr line || decide (0 < requests line b))) := by
  cases b with
  | request l =>
    obtain ⟨-, rfl⟩ := hs
    have hirr := request_irr s.pics l hl
    show _ + ((s.pics.request l).master.irr line).toNat ≤ _ ∧ (_ → (s.pics.request l).master.irr line = _)
    rw [hirr]
    unfold requests takes
    by_cases e : l = line
    · subst e
      cases s.pics.master.irr l <;> simp
    · have e' : line ≠ l := Ne.symm e
      cases s.pics.master.irr line <;> simp [e, e']
  | take vector x =>
    obtain ⟨i, hi, rfl, hr, -, -, hpics⟩ := take_cases h hs
    have hvec : (0x30 + UInt8.ofNat i = 0x30 + UInt8.ofNat line) ↔ i = line := by
      have hall : ∀ i < 2, ∀ line < 2, (0x30 + UInt8.ofNat i = 0x30 + UInt8.ofNat line) ↔ i = line := by decide
      exact hall i hi line hl
    rw [hpics]
    unfold requests takes served
    by_cases e : i = line
    · subst e
      simp [hr]
    · have e' : line ≠ i := Ne.symm e
      simp [hvec, e, e']
  | run a =>
    obtain ⟨-, -, k, -, rfl⟩ := hs
    simp [requests, takes]

theorem line_run (h : s.Inv) (hl : line < 2) (hs : Path Step s bs t) :
    (bs.map (takes line)).sum + (t.pics.master.irr line).toNat ≤
      (bs.map (requests line)).sum + (s.pics.master.irr line).toNat ∧
    ((bs.map (takes line)).sum = 0 →
      t.pics.master.irr line = (s.pics.master.irr line || decide (0 < (bs.map (requests line)).sum))) := by
  induction bs generalizing s with
  | nil =>
    obtain rfl := path_nil.mp hs
    simp
  | cons b bs ih =>
    obtain ⟨m, hm, hs⟩ := hs
    obtain ⟨hle, hwaits⟩ := line_step h hl hm
    obtain ⟨hle', hwaits'⟩ := ih (board_step h hm) hs
    rw [List.map_cons, List.map_cons, List.sum_cons, List.sum_cons]
    refine ⟨by omega, fun h0 => ?_⟩
    rw [hwaits' (by omega), hwaits (by omega), Bool.or_assoc, ← Bool.decide_or]
    congr 2
    apply propext
    omega

end

/-- the vector the controllers have for the processor -/
theorem inta_vector {p : Pics} (h : Programmed p) : p.inta.map Prod.fst =
    if p.master.irr 0 then some 0x30 else if p.master.irr 1 then some 0x31 else none := by
  have hsome : ∀ {line}, p.master.pending = some line → p.inta.map Prod.fst = some (0x30 + UInt8.ofNat line) := by
    intro line hp
    cases hv : p.inta with
    | none =>
      unfold Pics.inta at hv
      rw [hp] at hv
      dsimp only at hv
      revert hv
      split
      · cases p.slave.pending <;> exact fun hv => by cases hv
      · exact fun hv => by cases hv
    | some w =>
      obtain ⟨vector, q⟩ := w
      obtain ⟨i, hi, rfl, -⟩ := inta_programmed h hv
      rw [Option.some.inj (hp.symm.trans hi)]
      rfl
  cases h0 : p.master.irr 0 with
  | true => exact hsome ((pending_programmed h).mpr ⟨by decide, h0, fun j hj => absurd hj (Nat.not_lt_zero j)⟩)
  | false =>
    cases h1 : p.master.irr 1 with
    | true =>
      refine hsome ((pending_programmed h).mpr ⟨by decide, h1, fun j hj => ?_⟩)
      rw [Nat.lt_one_iff.mp hj, h0]
    | false =>
      have hnone : p.master.pending = none := by
        by_contra hne
        obtain ⟨line, hp⟩ := Option.ne_none_iff_exists'.mp hne
        obtain ⟨hl, hr, -⟩ := (pending_programmed h).mp hp
        obtain rfl | rfl : line = 0 ∨ line = 1 := by omega
        · cases hr.symm.trans h0
        · cases hr.symm.trans h1
      unfold Pics.inta
      rw [hnone]
      rfl

/-- From any state of the controllers, with requests of any devices between the writes of `init_PIC`, and in every
run that follows: interrupts are enabled and none is in service; the timer's request is taken first, then the
keyboard's, and no other; the kernel has a handler for what is taken; of the requests of a line none is served
twice, and none is forgotten. -/
theorem interrupts_served (p : Pics) (outs : List Programming) (hinit : initPIC = some (Programming.outs outs))
    (b : BootState) (hsti : b.cpu.interrupts) (as : List BoardAction) (s : Board)
    (hs : Path Step ⟨Kernel.boot b, outs.foldl program p⟩ as s) :
    (s.kernel.cpu.interrupts ∧ s.pics.master.Idle ∧ s.pics.slave.Idle) ∧
    (s.pics.inta.map Prod.fst =
      if s.pics.master.irr 0 then some 0x30 else if s.pics.master.irr 1 then some 0x31 else none) ∧
    (∀ vector q, s.pics.inta = some (vector, q) → ∀ x : Trap, (x.regs.user ↔ s.kernel.UserMode) → ∀ irq,
      s.kernel.trap vector.toUInt32 x ≠ .error (.unsupportedIRQ irq)) ∧
    ∀ line < 2, ∀ bs t, Path Step s bs t →
      (bs.map (takes line)).sum + (t.pics.master.irr line).toNat ≤
        (bs.map (requests line)).sum + (s.pics.master.irr line).toNat ∧
      ((bs.map (takes line)).sum = 0 →
        t.pics.master.irr line = (s.pics.master.irr line || decide (0 < (bs.map (requests line)).sum))) := by
  have hstart : Inv ⟨Kernel.boot b, outs.foldl program p⟩ :=
    ⟨Kernel.inv_boot b, hsti, fun hu => absurd hu b.ring0, programmed_init p outs hinit⟩
  have h := hs.inv (fun _ _ _ hi hst => board_step hi hst) hstart
  exact ⟨⟨h.enabled, h.pics.idle, h.pics.slaveIdle⟩, inta_vector h.pics,
    fun vector q hv x hx irq => take_supported h hv hx irq, fun line hl bs t ht => line_run h hl ht⟩

/-- controllers as the firmware leaves them: other vectors, nothing masked, two interrupts in service -/
def firmwarePics : Pics where
  master := ⟨fun _ => true, fun line => line == 0 || line == 2, 0, 0x08, 4, .ready, false, true, false⟩
  slave := ⟨fun _ => true, fun line => line == 6, 0, 0x70, 2, .ready, false, true, false⟩

/-- the keyboard and the disk ask before the last write -/
def smallProgramming : List Programming :=
  ((initPIC.getD []).dropLast.map .out) ++ [.request 1, .request 14, .out (0xa1, 0xff)]

def enabledMachine : BootState := { Kernel.smallMachine with
  cpu := { Kernel.ring0 with eflags := 0x202 }
  ring0 := by decide }

/-- the timer asks after the keyboard and is served before it -/
theorem interrupts_served_two : ∃ s t,
    Path Step ⟨Kernel.boot enabledMachine, smallProgramming.foldl program firmwarePics⟩ [.request 0] s ∧
      s.pics.inta.map Prod.fst = some 0x30 ∧
      Path Step s [.take 0x30 (Kernel.trapOf { Kernel.ring0 with eflags := 0x202 } 0)] t ∧
      t.pics.inta.map Prod.fst = some 0x31 := by
  have hinit : initPIC = some (Programming.outs smallProgramming) := by decide
  have hsti : enabledMachine.cpu.interrupts := by unfold Regs.interrupts; decide
  have hring0 : ¬ Kernel.ring0.user := by decide
  have hkeyboard : (smallProgramming.foldl program firmwarePics).master.irr 1 = true := by decide +kernel
  have hserved := interrupts_served firmwarePics smallProgramming hinit enabledMachine hsti
  obtain ⟨p, hp⟩ : ∃ p, p = smallProgramming.foldl program firmwarePics := ⟨_, rfl⟩
  rw [← hp] at hkeyboard hserved ⊢
  have hs : Path Step ⟨Kernel.boot enabledMachine, p⟩ [.request 0] ⟨Kernel.boot enabledMachine, p.request 0⟩ :=
    ⟨_, ⟨by decide, rfl⟩, rfl⟩
  obtain ⟨-, hfirst, -, hline⟩ := hserved _ _ hs
  have h0 : (p.request 0).master.irr 0 = true := by
    rw [request_irr _ _ (by decide), decide_eq_true rfl, Bool.or_true]
  have h1 : (p.request 0).master.irr 1 = true := by
    rw [request_irr _ _ (by decide), hkeyboard, Bool.true_or]
  rw [h0, if_pos rfl] at hfirst
  obtain ⟨⟨vector, q⟩, hq, hvector⟩ := Option.map_eq_some_iff.mp hfirst
  obtain rfl : vector = 0x30 := hvector
  have ht : ∃ t, Path Step ⟨Kernel.boot enabledMachine, p.request 0⟩
      [.take 0x30 (Kernel.trapOf { Kernel.ring0 with eflags := 0x202 } 0)] t :=
    ⟨_, _, ⟨hsti, iff_of_false hring0 hring0, rfl, _, _, hq, rfl, rfl⟩, rfl⟩
  obtain ⟨t, ht⟩ := ht
  -- the timer's request is gone and the keyboard's still waits
  have h0' : t.pics.master.irr 0 = false := by
    obtain ⟨hle, -⟩ := hline 0 (by decide) _ t ht
    rw [h0] at hle
    cases h : t.pics.master.irr 0 with
    | false => rfl
    | true =>
      rw [h] at hle
      exact absurd hle (by decide)
  have h1' : t.pics.master.irr 1 = true := by
    obtain ⟨-, hwaits⟩ := hline 1 (by decide) _ t ht
    rw [hwaits rfl, h1, Bool.true_or]
  obtain ⟨-, hthen, -⟩ := hserved _ _ (path_append.mpr ⟨_, hs, ht⟩)
  rw [h0', h1'] at hthen
  exact ⟨_, t, hs, hfirst, ht, hthen⟩

end Board

end StarOS
