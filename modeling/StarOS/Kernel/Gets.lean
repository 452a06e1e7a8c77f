import StarOS.Kernel.Queues

/-!
# `gets`

The kernel keeps one `gets` request: the process that waits, its buffer and how many characters it
asked for.  `Ledger` remembers beside the kernel which request every blocked process made, from the
call until the process leaves `blocking_queue`.

* `Ledger.Answerable`   every process that waits for `gets` is the one the kernel has registered,
                        with its own buffer and size;
* `no_request_lost_iff` in every run this holds after all steps exactly if every `gets` is called
                        when no other request is pending.
-/

namespace StarOS
open Lib

/-- the buffer and the size of a `gets` call -/
def Action.asks : Action → Option (UInt32 × UInt32)
  | .syscall t => if t.regs.eax = 4 then some (t.regs.ebx, t.regs.ecx) else none
  | _ => none

/-- the kernel, and the request of each process that is blocked in `gets` -/
structure Ledger where
  kernel : Kernel
  requests : Nat → Option (UInt32 × UInt32)

namespace Ledger

def boot (b : BootState) : Ledger := ⟨Kernel.boot b, fun _ => none⟩

/-- a call enters the request of the process that runs; a process that is no longer blocked has
none -/
def record (l : Ledger) (a : Action) (t : Kernel) (p : Nat) : Option (UInt32 × UInt32) :=
  if a.asks.isSome ∧ p ∈ l.kernel.runningQueue then a.asks
  else if p ∈ t.blockingQueue then l.requests p else none

def Step (l : Ledger) (a : Action) (m : Ledger) : Prop :=
  l.kernel.Step a m.kernel ∧ m.requests = l.record a m.kernel

/-- every process that waits is the one that the next key presses will answer -/
def Answerable (l : Ledger) : Prop :=
  ∀ p buffer count, l.requests p = some (buffer, count) →
    l.kernel.processWaitingGets = some p ∧ l.kernel.keyboard.gets.enabled = true ∧
    l.kernel.keyboard.gets.buffer = buffer ∧ l.kernel.keyboard.gets.count = count

/-- at least one character is asked for -/
def AsksSome (_ : Ledger) (a : Action) : Prop := ∀ request, a.asks = some request → request.2 ≠ 0

/-- no request is lost by the step -/
def KeepsAll (l : Ledger) (a : Action) : Prop := ∀ m, l.Step a m → m.Answerable

/-- if the step is a call of `gets`, no request is pending -/
def NonePending (l : Ledger) (a : Action) : Prop :=
  ∀ m, l.Step a m → a.asks.isSome → l.kernel.keyboard.gets.enabled = false

structure Inv (l : Ledger) : Prop where
  kernel : l.kernel.Inv
  blocked : ∀ p, (l.requests p).isSome → p ∈ l.kernel.blockingQueue
  answerable : l.Answerable
  /-- the request the kernel has registered is one of the ledger -/
  registered : l.kernel.keyboard.gets.enabled = true → l.kernel.keyboard.gets.count ≠ 0 ∧
    ∃ p, l.kernel.processWaitingGets = some p ∧
      l.requests p = some (l.kernel.keyboard.gets.buffer, l.kernel.keyboard.gets.count)

theorem inv_boot (b : BootState) : (boot b).Inv where
  kernel := Kernel.inv_boot b
  blocked := fun _ h => absurd h (by simp [boot])
  answerable := fun p buffer count h => by cases h
  registered := fun h => absurd h Bool.false_ne_true

section
variable {l m : Ledger} {a : Action}

/-- without a pending request the ledger is empty -/
theorem Inv.empty (hi : l.Inv) (h : l.kernel.keyboard.gets.enabled = false) (p : Nat) :
    l.requests p = none := by
  by_contra hne
  obtain ⟨request, hp⟩ := Option.ne_none_iff_exists'.mp hne
  obtain ⟨-, he, -⟩ := hi.answerable p request.1 request.2 hp
  exact absurd (h.symm.trans he) Bool.false_ne_true

theorem record_of_none (h : a.asks = none) (t : Kernel) (p : Nat) :
    l.record a t p = if p ∈ t.blockingQueue then l.requests p else none := by
  simp only [record, h, Option.isSome_none, Bool.false_eq_true, false_and, if_false]

/-- a step that leaves the registered request alone -/
theorem Inv.of_same (hi : l.Inv) (hk : m.kernel.Inv) (ha : a.asks = none)
    (hm : m.requests = l.record a m.kernel)
    (he : m.kernel.keyboard.gets.enabled = l.kernel.keyboard.gets.enabled)
    (hc : m.kernel.keyboard.gets.count = l.kernel.keyboard.gets.count)
    (hb : m.kernel.keyboard.gets.buffer = l.kernel.keyboard.gets.buffer)
    (hw : m.kernel.processWaitingGets = l.kernel.processWaitingGets) : m.Inv := by
  have hreq : ∀ p, m.requests p = if p ∈ m.kernel.blockingQueue then l.requests p else none := by
    intro p
    rw [hm, record_of_none ha]
  refine ⟨hk, fun p hp => ?_, fun p buffer count hp => ?_, fun hen => ?_⟩
  · by_contra hn
    rw [hreq, if_neg hn] at hp
    exact absurd hp Bool.false_ne_true
  · rw [hreq] at hp
    split at hp
    · rw [hw, he, hb, hc]
      exact hi.answerable p buffer count hp
    · cases hp
  · obtain ⟨q, hq, hblocked, -⟩ := hk.waiter hen
    rw [he] at hen
    obtain ⟨hne, p, hwait, hp⟩ := hi.registered hen
    have e : q = p := Option.some.inj (hq.symm.trans (hw.trans hwait))
    refine ⟨by rw [hc]; exact hne, p, by rw [hw]; exact hwait, ?_⟩
    rw [hreq, if_pos (e ▸ hblocked), hp, hb, hc]

/-- once nothing is pending, nothing is left in the ledger -/
theorem inv_of_empty (hk : m.kernel.Inv) (hm : ∀ p, m.requests p = none)
    (he : m.kernel.keyboard.gets.enabled = false) : m.Inv where
  kernel := hk
  blocked := fun p hp => by rw [hm p] at hp; cases hp
  answerable := fun p buffer count hp => by rw [hm p] at hp; cases hp
  registered := fun h => absurd (he.symm.trans h) Bool.false_ne_true

theorem inv_typed (hi : l.Inv) {t : Trap} {r : Response} (hk : m.kernel.Inv)
    (hm : m.requests = l.record (.keyboard t) m.kernel) (hmk : m.kernel = l.kernel.typed r t)
    (hr : ps2KeyboardInterrupt l.kernel.keyboard t.data = .ok r)
    (hg : r.keyboard.gets.enabled = true ∨ r.keyboard.gets.count = 0) : m.Inv := by
  obtain ⟨hcount, hbuffer, hoff⟩ := interrupt_gets hr
  have hgets : m.kernel.keyboard.gets = r.keyboard.gets := by rw [hmk]; rfl
  have hwait : m.kernel.processWaitingGets = l.kernel.processWaitingGets := by rw [hmk]; rfl
  by_cases hen : l.kernel.keyboard.gets.enabled = true
  · have hgen : r.keyboard.gets.enabled = true := by
      refine hg.resolve_right fun h0 => ?_
      exact (hi.registered hen).1 (hcount.symm.trans h0)
    refine hi.of_same hk rfl hm ?_ ?_ ?_ hwait
    · rw [hgets, hgen, hen]
    · rw [hgets, hcount]
    · rw [hgets, hbuffer]
  · have hen := Bool.eq_false_iff.mpr hen
    refine inv_of_empty hk (fun p => ?_) ?_
    · rw [hm, record_of_none rfl, hi.empty hen p, ite_self]
    · rw [hgets]
      exact hoff hen

/-- the answer empties the ledger: the process it wakes was the only one in it -/
theorem inv_answer (hi : l.Inv) {t : Trap} {r : Response} {p : Nat} (hk : m.kernel.Inv)
    (hm : m.requests = l.record (.keyboard t) m.kernel)
    (hmk : m.kernel = (l.kernel.typed r t).answer p)
    (hdone : r.keyboard.gets.enabled = false) (hw : l.kernel.processWaitingGets = some p) :
    m.Inv := by
  refine inv_of_empty hk (fun q => ?_) ?_
  · rw [hm, record_of_none rfl]
    by_cases hq : q = p
    · rw [if_neg]
      rw [hmk, hq]
      intro hb
      exact (hi.kernel.placed.blocking_nodup.mem_sdiff_iff.mp hb).2 (List.mem_singleton_self p)
    · have hnone : l.requests q = none := by
        by_contra hne
        obtain ⟨request, hreq⟩ := Option.ne_none_iff_exists'.mp hne
        obtain ⟨hq', -⟩ := hi.answerable q request.1 request.2 hreq
        exact hq (Option.some.inj (hq'.symm.trans hw))
      rw [hnone, ite_self]
  · rw [hmk]
    exact hdone

theorem asks_eq_none {t : Trap} (h : t.regs.eax ≠ 4) : (Action.syscall t).asks = none := if_neg h

theorem asks_eq_some {t : Trap} (h : t.regs.eax = 4) :
    (Action.syscall t).asks = some (t.regs.ebx, t.regs.ecx) := if_pos h

/-- the process that calls `gets` becomes the only one in the ledger -/
theorem inv_gets (hi : l.Inv) {t : Trap} {p : Nat} {paging : Paging} (hk : m.kernel.Inv)
    (hm : m.requests = l.record (.syscall t) m.kernel)
    (hmk : m.kernel = { l.kernel with paging := paging }.getsCalled p t) (h4 : t.regs.eax = 4)
    (hr : l.kernel.runningQueue = [p]) (hen : l.kernel.keyboard.gets.enabled = false)
    (hpos : t.regs.ecx ≠ 0) : m.Inv := by
  have hself : m.requests p = some (t.regs.ebx, t.regs.ecx) := by
    rw [hm, record, asks_eq_some h4, if_pos ⟨rfl, hr ▸ List.mem_singleton_self p⟩]
  have hother : ∀ q, q ≠ p → m.requests q = none := by
    intro q hq
    have hnr : q ∉ l.kernel.runningQueue := by
      rw [hr]
      exact fun h => hq (List.mem_singleton.mp h)
    rw [hm, record, if_neg fun h => hnr h.2, hi.empty hen q, ite_self]
  refine ⟨hk, fun q hq => ?_, fun q buffer count hq => ?_, fun _ => ?_⟩
  · by_cases e : q = p
    · rw [hmk, e]
      exact List.mem_append_right _ (List.mem_singleton_self p)
    · rw [hother q e] at hq
      cases hq
  · by_cases e : q = p
    · subst e
      rw [hself] at hq
      cases hq
      rw [hmk]
      exact ⟨rfl, rfl, rfl, rfl⟩
    · rw [hother q e] at hq
      cases hq
  · rw [hmk]
    exact ⟨hpos, p, rfl, hself⟩

theorem inv_step (hi : l.Inv) (hpos : l.AsksSome a) (hnone : l.NonePending a) (hs : l.Step a m) :
    m.Inv := by
  have hk := Kernel.inv_step hi.kernel hs.1
  have hfree := hnone m hs
  obtain ⟨t, requests⟩ := m
  obtain ⟨hs, hm⟩ := hs
  cases hs.outcome hi.kernel with
  | enqueued => exact hi.of_same hk rfl hm rfl rfl rfl rfl
  | idle => exact hi.of_same hk rfl hm rfl rfl rfl rfl
  | dispatched => exact hi.of_same hk rfl hm rfl rfl rfl rfl
  | ticked => exact hi.of_same hk rfl hm rfl rfl rfl rfl
  | preempted => exact hi.of_same hk rfl hm rfl rfl rfl rfl
  | typed x r hr _ hg => exact inv_typed hi hk hm rfl hr hg
  | answered x r p _ _ _ hdone hw => exact inv_answer hi hk hm rfl hdone hw
  | served x _ _ _ _ ho => exact hi.of_same hk (asks_eq_none ho.1) hm rfl rfl rfl rfl
  | gets x p paging hr _ h4 =>
    have hsome : (Action.syscall x).asks.isSome := by
      rw [asks_eq_some h4]
      rfl
    exact inv_gets hi hk hm rfl h4 hr (hfree hsome) (hpos _ (asks_eq_some h4))
  | sleep x p _ _ h5 =>
    have h4 : x.regs.eax ≠ 4 := by
      rw [h5]
      decide
    exact hi.of_same hk (asks_eq_none h4) hm rfl rfl rfl rfl

/-- a call while another request is pending makes that one unanswerable -/
theorem keepsAll_iff (hi : l.Inv) (hpos : l.AsksSome a) : l.KeepsAll a ↔ l.NonePending a := by
  constructor
  · intro hkeep m hs hasks
    by_contra hen
    have hen : l.kernel.keyboard.gets.enabled = true := Bool.not_eq_false _ ▸ hen
    obtain ⟨-, q, hw, hq⟩ := hi.registered hen
    have hqb := hi.blocked q (by rw [hq]; rfl)
    have hans := hkeep m hs
    obtain ⟨t, requests⟩ := m
    obtain ⟨hs, hm⟩ := hs
    cases a with
    | syscall x =>
      have h4 : x.regs.eax = 4 := by
        by_contra h4
        rw [asks_eq_none h4] at hasks
        cases hasks
      obtain ⟨-, p, hr, -⟩ := hi.kernel.user hs.1.2
      obtain ⟨paging, rfl⟩ := hs.gets hi.kernel hr h4
      have hne : q ≠ p := fun e =>
        hi.kernel.placed.not_blocking_of_running (hr ▸ List.mem_singleton_self p) (e ▸ hqb)
      have hnr : q ∉ l.kernel.runningQueue := by
        rw [hr]
        exact fun h => hne (List.mem_singleton.mp h)
      have hstill : requests q = l.requests q := by
        have hm : requests = l.record (.syscall x)
          ({ l.kernel with paging := paging }.getsCalled p x) := hm
        rw [hm, record, if_neg fun h => hnr h.2, if_pos]
        exact List.mem_append_left _ hqb
      obtain ⟨hwait, -⟩ := hans q _ _ (hstill.trans hq)
      exact hne (Option.some.inj hwait).symm
    | execv => cases hasks
    | dispatch => cases hasks
    | timer => cases hasks
    | keyboard => cases hasks
  · intro hnone m hs
    exact (inv_step hi hpos hnone hs).answerable

end

/-- **Along every run whose `gets` calls ask for at least one character, every process that waits
for an answer is the one that will get it, exactly if no `gets` is called while a request is
pending.** -/
theorem no_request_lost_iff (b : BootState) (as : List Action)
    (hpos : ∀ a ∈ as, ∀ request, a.asks = some request → request.2 ≠ 0) :
    Along Step KeepsAll (boot b) as ↔ Along Step NonePending (boot b) as :=
  Along.iff_of_inv (I := Inv) (fun _ _ _ hi hp hn hs => inv_step hi hp hn hs)
    (fun _ _ hi hp => keepsAll_iff hi hp) (inv_boot b) (along_of_labels (fun a ha _ => hpos a ha) _)

/-! ## two processes -/

/-- the ledger after a step that does not halt -/
def next (l : Ledger) (a : Action) : Ledger := ⟨l.kernel.next a, l.record a (l.kernel.next a)⟩

theorem step_next {l : Ledger} {a : Action} (hen : l.kernel.Enabled a)
    (hok : (l.kernel.step a).isOk = true) : l.Step a (l.next a) :=
  ⟨Kernel.step_next hen hok, rfl⟩

/-- the running process calls `gets` -/
def getsCall (buffer count : UInt32) : Action :=
  .syscall (Kernel.trapOf { Kernel.ring3 with eax := 4, ebx := buffer, ecx := count } 0)

/-- two processes call `gets`, one after the other -/
def twoCalls : List Action :=
  [.execv Kernel.smallImage, .execv Kernel.smallImage, .dispatch Kernel.ring0 0x202,
    getsCall 0x08049000 5, .dispatch Kernel.ring0 0x202, getsCall 0x0804a000 3]

theorem twoCalls_pos : ∀ a ∈ twoCalls, ∀ request, a.asks = some request → request.2 ≠ 0 := by
  intro a ha request h
  simp only [twoCalls, List.mem_cons, List.not_mem_nil, or_false] at ha
  rcases ha with rfl | rfl | rfl | rfl | rfl | rfl <;> cases h <;> decide

/-- the first process alone -/
def oneCall : List Action :=
  [.execv Kernel.smallImage, .dispatch Kernel.ring0 0x202, getsCall 0x08049000 5]

theorem oneCall_pos : ∀ a ∈ oneCall, ∀ request, a.asks = some request → request.2 ≠ 0 := by
  intro a ha request h
  simp only [oneCall, List.mem_cons, List.not_mem_nil, or_false] at ha
  rcases ha with rfl | rfl | rfl <;> cases h
  decide

theorem no_request_lost_iff_one : Along Step KeepsAll (boot Kernel.smallMachine) oneCall := by
  have hno : ∀ (l : Ledger) (a : Action), a.asks = none → l.NonePending a := by
    intro l a h m _ hs
    rw [h] at hs
    cases hs
  refine (no_request_lost_iff Kernel.smallMachine oneCall oneCall_pos).mpr
    ⟨hno _ _ rfl, fun l₁ h₁ => ⟨hno _ _ rfl, fun l₂ h₂ => ⟨fun _ _ _ => ?_, fun _ _ => trivial⟩⟩⟩
  have e₁ : (boot Kernel.smallMachine).kernel.next (.execv Kernel.smallImage) = l₁.kernel :=
    Except.ok.inj h₁.1.2
  have h₂ := h₂.1.2
  rw [← e₁] at h₂
  have e₂ : Kernel.oneRuns = l₂.kernel := Except.ok.inj h₂
  rw [← e₂]
  rfl

/-- **The second call takes the place of the first one, whose process then waits for ever.** -/
theorem second_gets_takes_place : ¬ ∀ (b : BootState) (as : List Action),
    (∀ a ∈ as, ∀ request, a.asks = some request → request.2 ≠ 0) →
    Along Step KeepsAll (boot b) as := by
  intro hall
  have h := hall Kernel.smallMachine twoCalls twoCalls_pos
  have h := h.2 _ (step_next trivial rfl)
  have h := h.2 _ (step_next trivial rfl)
  have h := h.2 _ (step_next (by decide) rfl)
  have h := h.2 _ (step_next (by decide) rfl)
  have h := h.2 _ (step_next (by decide) rfl)
  have h := h.1 _ (step_next (by decide) rfl)
  obtain ⟨hwait, -⟩ := h 0 0x08049000 5 rfl
  exact absurd hwait (by decide)

end Ledger
end StarOS
