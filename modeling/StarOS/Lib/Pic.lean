import Mathlib.Logic.Function.Basic

/-!
# A pair of interrupt controllers (8259)

The registers of a controller, what a write to its two ports does, and two of them in cascade.  Lines are edge
triggered and priorities fixed, line 0 first; the other modes, and requests that are taken back before the
processor has seen them, are left out.

* `Pic.command`, `Pic.data`   a write to the command port and to the data port;
* `Pic.pending`        the line a controller interrupts with;
* `Pics.request`, `Pics.inta`   a device raises a line; the processor acknowledges;
* `pending_idle`       with nothing in service the first line that is requested and not masked interrupts;
* `eoi_acknowledge`    after a line is acknowledged, the command that ends an interrupt leaves nothing in service;
* `Alike`              two pairs that differ in their requests only; writes and requests keep this.
-/

namespace Lib

inductive PicPhase where
  | icw2
  | icw3
  | icw4
  | ready
deriving DecidableEq

structure Pic where
  /-- the lines that are requested -/
  irr : Nat → Bool
  /-- the lines in service -/
  isr : Nat → Bool
  /-- the mask -/
  imr : UInt8
  base : UInt8
  cascade : UInt8
  /-- the byte the data port expects -/
  phase : PicPhase
  single : Bool
  needsIcw4 : Bool
  autoEoi : Bool

namespace Pic

/-- the highest line in service leaves it -/
def eoi (p : Pic) : Pic :=
  match (List.range 8).find? p.isr with
  | none => p
  | some i => { p with isr := Function.update p.isr i false }

/-- a byte with bit 4 starts the programming -/
def command (p : Pic) (byte : UInt8) : Pic :=
  if byte &&& 0x10 ≠ 0 then
    { p with
      irr := fun _ => false, isr := fun _ => false, imr := 0, phase := .icw2
      single := byte &&& 0x02 ≠ 0, needsIcw4 := byte &&& 0x01 ≠ 0, autoEoi := false }
  else if byte = 0x20 then p.eoi
  else p

def data (p : Pic) (byte : UInt8) : Pic :=
  match p.phase with
  | .icw2 =>
    { p with base := byte &&& 0xf8, phase := if !p.single then .icw3 else if p.needsIcw4 then .icw4 else .ready }
  | .icw3 => { p with cascade := byte, phase := if p.needsIcw4 then .icw4 else .ready }
  | .icw4 => { p with autoEoi := byte &&& 0x02 ≠ 0, phase := .ready }
  | .ready => { p with imr := byte }

def request (p : Pic) (line : Nat) : Pic := { p with irr := Function.update p.irr line true }

def masked (p : Pic) (line : Nat) : Bool := p.imr.toNat.testBit line

/-- no line of this priority or a higher one is in service -/
def free (p : Pic) (line : Nat) : Bool := (List.range (line + 1)).all fun j => !p.isr j

def pending (p : Pic) : Option Nat :=
  if p.phase = .ready then (List.range 8).find? fun line => p.irr line && !p.masked line && p.free line else none

def acknowledge (p : Pic) (line : Nat) : Pic :=
  { p with
    irr := Function.update p.irr line false
    isr := if p.autoEoi then p.isr else Function.update p.isr line true }

/-- nothing is in service -/
def Idle (p : Pic) : Prop := ∀ line, p.isr line = false

section
variable {p : Pic} {line : Nat}

theorem Idle.free (h : p.Idle) (line : Nat) : p.free line = true := by
  unfold Pic.free
  rw [List.all_eq_true]
  intro j _
  rw [h j]
  rfl

theorem pending_idle (h : p.Idle) (hp : p.phase = .ready) :
    p.pending = some line ↔ line < 8 ∧ p.irr line = true ∧ p.masked line = false ∧
      ∀ j < line, p.irr j = true → p.masked j = true := by
  unfold pending
  rw [if_pos hp, List.find?_range_eq_some, List.mem_range]
  simp only [h.free, Bool.and_true, Bool.and_eq_true, Bool.not_eq_true', Bool.and_eq_false_iff,
    Bool.not_eq_false']
  constructor
  · rintro ⟨⟨hr, hm⟩, hlt, hj⟩
    refine ⟨hlt, hr, hm, fun j hlt hrj => ?_⟩
    exact (hj j hlt).resolve_left fun hn => Bool.false_ne_true (hn.symm.trans hrj)
  · rintro ⟨hlt, hr, hm, hj⟩
    refine ⟨⟨hr, hm⟩, hlt, fun j hlt => ?_⟩
    cases hrj : p.irr j with
    | false => exact .inl rfl
    | true => exact .inr (hj j hlt hrj)

/-- the interrupt that was acknowledged is the one that ends -/
theorem eoi_acknowledge (h : p.Idle) (ha : p.autoEoi = false) (hl : line < 8) :
    (p.acknowledge line).eoi = { p with irr := Function.update p.irr line false } := by
  have hisr : (p.acknowledge line).isr = Function.update p.isr line true := by
    unfold acknowledge
    rw [ha]
    rfl
  have hfind : (List.range 8).find? (p.acknowledge line).isr = some line := by
    rw [hisr, List.find?_range_eq_some, List.mem_range]
    refine ⟨Function.update_self _ _ _, hl, fun j hj => ?_⟩
    rw [Function.update_of_ne (Nat.ne_of_lt hj), h j]
    rfl
  have hback : Function.update (Function.update p.isr line true) line false = p.isr := by
    rw [Function.update_idem, ← h line, Function.update_eq_self]
  unfold eoi
  rw [hfind, hisr]
  dsimp only
  rw [hback]
  rfl

/-- a write to the command port, where the requests are not known -/
theorem command_irr (p : Pic) (byte : UInt8) (irr : Nat → Bool) :
    ∃ irr', { p with irr := irr }.command byte = { p.command byte with irr := irr' } := by
  unfold command
  by_cases h1 : byte &&& 0x10 ≠ 0
  · exact ⟨fun _ => false, by rw [if_pos h1, if_pos h1]⟩
  · rw [if_neg h1, if_neg h1]
    by_cases h2 : byte = 0x20
    · refine ⟨irr, ?_⟩
      rw [if_pos h2, if_pos h2]
      unfold eoi
      dsimp only
      cases (List.range 8).find? p.isr <;> rfl
    · exact ⟨irr, by rw [if_neg h2, if_neg h2]⟩

theorem data_irr (p : Pic) (byte : UInt8) (irr : Nat → Bool) :
    { p with irr := irr }.data byte = { p.data byte with irr := irr } := by
  unfold data
  dsimp only
  cases p.phase <;> rfl

end
end Pic

/-- a pair: the output of the slave is line 2 of the master -/
structure Pics where
  master : Pic
  slave : Pic

namespace Pics

/-- after a change of `p` to `q`: where the slave begins to interrupt, it raises the line of the master -/
def wire (p q : Pics) : Pics :=
  if p.slave.pending.isNone && q.slave.pending.isSome then { q with master := q.master.request 2 } else q

/-- the lines are numbered from 0 to 15 -/
def request (p : Pics) (line : Nat) : Pics :=
  p.wire (if line < 8 then { p with master := p.master.request line }
    else { p with slave := p.slave.request (line - 8) })

/-- the vector that the processor gets -/
def inta (p : Pics) : Option (UInt8 × Pics) :=
  match p.master.pending with
  | none => none
  | some i =>
    let q := { p with master := p.master.acknowledge i }
    if p.master.cascade.toNat.testBit i then
      match p.slave.pending with
      | none => some (p.slave.base + 7, q)
      | some j => some (p.slave.base + UInt8.ofNat j, { q with slave := p.slave.acknowledge j })
    else some (p.master.base + UInt8.ofNat i, q)

/-- they differ in the requests only -/
def Alike (p q : Pics) : Prop :=
  ∃ m s, q = ⟨{ p.master with irr := m }, { p.slave with irr := s }⟩

section
variable {p q r : Pics}

theorem Alike.refl (p : Pics) : p.Alike p := ⟨p.master.irr, p.slave.irr, rfl⟩

theorem Alike.trans (h : p.Alike q) (h' : q.Alike r) : p.Alike r := by
  obtain ⟨m, s, rfl⟩ := h
  obtain ⟨m', s', rfl⟩ := h'
  exact ⟨m', s', rfl⟩

theorem alike_wire (p q : Pics) : q.Alike (p.wire q) := by
  unfold wire
  split
  · exact ⟨_, q.slave.irr, rfl⟩
  · exact .refl q

theorem alike_request (p : Pics) (line : Nat) : p.Alike (p.request line) := by
  refine .trans ?_ (alike_wire p _)
  split
  · exact ⟨_, p.slave.irr, rfl⟩
  · exact ⟨p.master.irr, _, rfl⟩

end

end Pics
end Lib
