import StarOS.Kernel.Sleep

/-!
# The loop of the scheduler and its wait (`schedular.cpp`, `sleep.cpp`)

Between two looks at `ready_queue` the thread of the scheduler waits in `usleep(1000)`, also when a process
has just given up the CPU.  The wait is one timer interrupt: `Count_down` is set to 1, compared, and the
thread executes `hlt` as long as it is positive.  An interrupt between the comparison and `hlt` does not end
the `hlt` that follows.

* `Rounds`             the kernel with the place of the thread; `Rounds.Step` the steps of both;
* `Rounds.Outcome`     what each step does;
* `Rounds.budget`      timer interrupts until the next look at `ready_queue`, at most;
* `budget_step`        one step spends no more than it takes from the budget;
* `response_time`      **a process with `k` processes before it in `ready_queue` is entered within
                       `3 * (k + 1)` timer interrupts**, if the thread gets to rest between two of them;
* `pending_step`       an entry and a preemption each leave a timer interrupt to wait for;
* `preempted_half`     **a run enters and preempts no more processes than its timer interrupts and one**, so
                       processes that only compute have at most every second tick.

Entering a process is one step here.
-/

namespace StarOS
open Lib

/-- where the thread of the scheduler is -/
inductive Point where
  /-- before the test of the loop in `schedular` -/
  | loop
  /-- before the call `usleep(1000)` -/
  | usleep
  /-- before the comparison in `usleep` -/
  | compare
  /-- before `hlt` -/
  | hlt
  /-- in `hlt` -/
  | halted
  /-- in `switch_to_process`, while a process runs -/
  | process
deriving DecidableEq

structure Rounds where
  kernel : Kernel
  point : Point
  /-- since the last timer interrupt the thread was in `hlt` or a process ran -/
  rested : Bool

inductive RoundAction where
  /-- the next statement of the thread; the arguments are those of `switch_to_process` -/
  | run (kernel : Regs) (flags : UInt32)
  | timer (t : Trap)
  | keyboard (t : Trap)
  | syscall (t : Trap)

namespace RoundAction

/-- the timer interrupts among the labels are counted with this -/
def ticks : RoundAction → Nat
  | .timer _ => 1
  | _ => 0

/-- the step of the kernel, for an interrupt -/
def interrupt : RoundAction → Option Action
  | .run _ _ => none
  | .timer t => some (.timer t)
  | .keyboard t => some (.keyboard t)
  | .syscall t => some (.syscall t)

end RoundAction

namespace Rounds

/-- the next statement of the thread -/
def run (r : Rounds) (kernel : Regs) (flags : UInt32) : Option Rounds :=
  match r.point with
  | .loop =>
    if r.kernel.readyQueue.isEmpty then some { r with point := .usleep }
    else (r.kernel.step (.dispatch kernel flags)).toOption.map fun s => ⟨s, .process, true⟩
  | .usleep => (usleep r.kernel 1000).toOption.map fun s => { r with kernel := s, point := .compare }
  | .compare => some { r with point := if r.kernel.countDown > 0 then .hlt else .loop }
  | .hlt => some { r with point := .halted, rested := true }
  | .halted => some r
  | .process => some r

/-- where the thread is after an interrupt that leaves the kernel in `s` -/
def resume (point : Point) (s : Kernel) : Point :=
  match point with
  | .halted => .compare
  | .process => if s.UserMode then .process else .usleep
  | p => p

def step (r : Rounds) (a : RoundAction) : Option Rounds :=
  match a with
  | .run kernel flags => r.run kernel flags
  | .timer t => (r.kernel.step (.timer t)).toOption.map fun s => ⟨s, resume r.point s, false⟩
  | .keyboard t => (r.kernel.step (.keyboard t)).toOption.map fun s => ⟨s, resume r.point s, r.rested⟩
  | .syscall t => (r.kernel.step (.syscall t)).toOption.map fun s => ⟨s, resume r.point s, r.rested⟩

/-- the thread takes no step in `hlt` and while a process runs -/
def Enabled (r : Rounds) : RoundAction → Prop
  | .run kernel _ => r.point ≠ .halted ∧ r.point ≠ .process ∧ ¬ kernel.user
  | .timer t => t.regs.user ↔ r.kernel.UserMode
  | .keyboard t => t.regs.user ↔ r.kernel.UserMode
  | .syscall t => t.regs.user ∧ r.kernel.UserMode

instance (r : Rounds) (a : RoundAction) : Decidable (r.Enabled a) :=
  match a with
  | .run kernel _ => inferInstanceAs (Decidable (r.point ≠ .halted ∧ r.point ≠ .process ∧ ¬ kernel.user))
  | .timer t => inferInstanceAs (Decidable (t.regs.user ↔ r.kernel.UserMode))
  | .keyboard t => inferInstanceAs (Decidable (t.regs.user ↔ r.kernel.UserMode))
  | .syscall t => inferInstanceAs (Decidable (t.regs.user ∧ r.kernel.UserMode))

def Step (r : Rounds) (a : RoundAction) (r' : Rounds) : Prop := r.Enabled a ∧ r.step a = some r'

/-- the scheduler is entered after some calls of `execv` -/
def Booted (b : BootState) (r : Rounds) : Prop :=
  ∃ (images : List Image) (s : Kernel), Path Kernel.Step (.boot b) (images.map .execv) s ∧ r = ⟨s, .loop, true⟩

/-- a timer interrupt comes only when the thread has been at rest since the last one -/
def Prompt (r : Rounds) (a : RoundAction) : Prop := a.ticks = 1 → r.rested = true

instance (r : Rounds) (a : RoundAction) : Decidable (r.Prompt a) := inferInstanceAs (Decidable (_ → _))

/-! ## what each step does -/

inductive Outcome (r : Rounds) : RoundAction → Rounds → Prop
  | idle (kernel : Regs) (flags : UInt32) (here : r.point = .loop) (empty : r.kernel.readyQueue = []) :
      Outcome r (.run kernel flags) { r with point := .usleep }
  | dispatched (kernel : Regs) (flags : UInt32) (here : r.point = .loop) (p : Nat) (ready : List Nat)
      (queue : r.kernel.readyQueue = p :: ready) (ring0 : ¬ kernel.user) :
      Outcome r (.run kernel flags) ⟨r.kernel.dispatched p ready kernel flags, .process, true⟩
  | set (kernel : Regs) (flags : UInt32) (here : r.point = .usleep) :
      Outcome r (.run kernel flags) { r with kernel := { r.kernel with countDown := 1 }, point := .compare }
  | wait (kernel : Regs) (flags : UInt32) (here : r.point = .compare) (positive : 0 < r.kernel.countDown) :
      Outcome r (.run kernel flags) { r with point := .hlt }
  | done (kernel : Regs) (flags : UInt32) (here : r.point = .compare) (ended : r.kernel.countDown ≤ 0) :
      Outcome r (.run kernel flags) { r with point := .loop }
  | rest (kernel : Regs) (flags : UInt32) (here : r.point = .hlt) :
      Outcome r (.run kernel flags) { r with point := .halted, rested := true }
  | interrupted (a : RoundAction) (k : Action) (label : a.interrupt = some k) (s : Kernel)
      (handled : r.kernel.Step k s) :
      Outcome r a ⟨s, resume r.point s, if a.ticks = 1 then false else r.rested⟩

section
variable {r r' : Rounds} {a : RoundAction}

theorem toOption_map {s : Kernel} {k : Action} {f : Kernel → Rounds}
    (h : (s.step k).toOption.map f = some r') : ∃ u, s.step k = .ok u ∧ r' = f u := by
  cases hs : s.step k with
  | error e =>
    rw [hs] at h
    cases h
  | ok u =>
    rw [hs] at h
    exact ⟨u, rfl, (Option.some.inj h).symm⟩

/-- the inversion of a step -/
theorem Step.outcome (hs : r.Step a r') : Outcome r a r' := by
  obtain ⟨hen, hs⟩ := hs
  cases a with
  | timer t =>
    obtain ⟨s, hk, rfl⟩ := toOption_map hs
    exact .interrupted (.timer t) (.timer t) rfl s ⟨hen, hk⟩
  | keyboard t =>
    obtain ⟨s, hk, rfl⟩ := toOption_map hs
    exact .interrupted (.keyboard t) (.keyboard t) rfl s ⟨hen, hk⟩
  | syscall t =>
    obtain ⟨s, hk, rfl⟩ := toOption_map hs
    exact .interrupted (.syscall t) (.syscall t) rfl s ⟨hen, hk⟩
  | run kernel flags =>
    obtain ⟨hhalted, hprocess, hring⟩ := hen
    replace hs : r.run kernel flags = some r' := hs
    unfold run at hs
    cases hp : r.point with
    | loop =>
      rw [hp] at hs
      cases hq : r.kernel.readyQueue with
      | nil =>
        rw [hq] at hs
        obtain rfl := Option.some.inj hs
        exact .idle kernel flags hp hq
      | cons p ready =>
        rw [hq] at hs
        obtain ⟨s, hk, rfl⟩ := toOption_map hs
        obtain rfl := Except.ok.inj ((Kernel.schedular_cons kernel flags hq).symm.trans hk)
        exact .dispatched kernel flags hp p ready hq hring
    | usleep =>
      rw [hp] at hs
      obtain rfl := Option.some.inj hs
      exact .set kernel flags hp
    | compare =>
      rw [hp] at hs
      obtain rfl := Option.some.inj hs
      by_cases hcd : r.kernel.countDown > 0
      · rw [if_pos hcd]
        exact .wait kernel flags hp hcd
      · rw [if_neg hcd]
        exact .done kernel flags hp (Int.not_lt.mp hcd)
    | hlt =>
      rw [hp] at hs
      obtain rfl := Option.some.inj hs
      exact .rest kernel flags hp
    | halted => exact absurd hp hhalted
    | process => exact absurd hp hprocess

end

/-- what an interrupt does to the ready queue, to `Count_down` and to the ring the CPU is in -/
theorem interrupt_frame {s t : Kernel} {a : RoundAction} {k : Action} (ha : a.interrupt = some k) (hi : s.Inv)
    (hs : s.Step k t) : (∃ l, t.readyQueue = s.readyQueue ++ l) ∧ t.countDown = s.countDown - a.ticks ∧
      (t.UserMode → s.UserMode) ∧ (a.ticks = 1 → ¬ t.UserMode) := by
  cases a with
  | run kernel flags => cases ha
  | timer x =>
    obtain rfl := Option.some.inj ha
    cases hs.outcome hi with
    | ticked _ hm hr => exact ⟨⟨_, rfl⟩, rfl, fun hu => absurd hu hr, fun _ => hr⟩
    | preempted _ p hr hu =>
      refine ⟨⟨_, List.append_assoc _ _ _⟩, rfl, fun h => absurd h hi.kernel_context, fun _ => hi.kernel_context⟩
  | keyboard x =>
    obtain rfl := Option.some.inj ha
    have hcd : s.countDown = s.countDown - ((0 : Nat) : Int) := (Int.sub_zero _).symm
    have h1 : (0 : Nat) ≠ 1 := by decide
    cases hs.outcome hi with
    | typed _ _ _ hm => exact ⟨⟨[], (List.append_nil _).symm⟩, hcd, hm.mp, fun h => absurd h h1⟩
    | answered _ _ _ _ hm => exact ⟨⟨_, rfl⟩, hcd, hm.mp, fun h => absurd h h1⟩
  | syscall x =>
    obtain rfl := Option.some.inj ha
    have hcd : s.countDown = s.countDown - ((0 : Nat) : Int) := (Int.sub_zero _).symm
    have h1 : (0 : Nat) ≠ 1 := by decide
    have hready : s.readyQueue = s.readyQueue ++ [] := (List.append_nil _).symm
    have hmode := hs.1.2
    cases hs.outcome hi with
    | served => exact ⟨⟨[], hready⟩, hcd, fun _ => hmode, fun h => absurd h h1⟩
    | gets => exact ⟨⟨[], hready⟩, hcd, fun _ => hmode, fun h => absurd h h1⟩
    | sleep => exact ⟨⟨[], hready⟩, hcd, fun _ => hmode, fun h => absurd h h1⟩

/-! ## the invariant -/

structure Inv (r : Rounds) : Prop where
  kernel : r.kernel.Inv
  mode : r.point = .process ↔ r.kernel.UserMode
  rested : r.point = .halted ∨ r.point = .process → r.rested = true
  one : r.point = .compare ∨ r.point = .hlt ∨ r.point = .halted → r.kernel.countDown ≤ 1

section
variable {r r' : Rounds} {a : RoundAction}

theorem inv_booted {b : BootState} (h : Booted b r) : r.Inv := by
  obtain ⟨images, s, hs, rfl⟩ := h
  have hmode : ¬ s.UserMode := by
    refine hs.inv_labels (I := fun s => s.Inv ∧ ¬ s.UserMode) (P := fun a => ∃ image, a = .execv image) ?_ ?_
      ⟨Kernel.inv_boot b, b.ring0⟩ |>.2
    · rintro s _ t ⟨hi, hu⟩ ⟨image, rfl⟩ ht
      refine ⟨Kernel.inv_step hi ht, ?_⟩
      cases ht.outcome hi with
      | enqueued => exact hu
    · intro a ha
      obtain ⟨image, -, rfl⟩ := List.mem_map.mp ha
      exact ⟨image, rfl⟩
  exact ⟨Kernel.inv_run hs, ⟨fun h => (by cases h), fun h => absurd h hmode⟩, fun h => (by rcases h with h | h <;> cases h),
    fun h => (by rcases h with h | h | h <;> cases h)⟩

/-- the thread goes on, and no process runs -/
theorem Inv.goes (hi : r.Inv) {q : Point} {rested : Bool} (hp : r.point ≠ .process) (hq : q ≠ .process)
    (hrest : q = .halted → rested = true)
    (hone : q = .compare ∨ q = .hlt ∨ q = .halted → r.kernel.countDown ≤ 1) :
    (⟨r.kernel, q, rested⟩ : Rounds).Inv where
  kernel := hi.kernel
  mode := ⟨fun h => absurd h hq, fun h => absurd (hi.mode.mpr h) hp⟩
  rested := fun h => h.elim hrest fun h => absurd h hq
  one := hone

theorem Outcome.inv (ho : Outcome r a r') (hi : r.Inv) : r'.Inv := by
  cases ho with
  | idle _ _ here =>
    refine hi.goes ?_ ?_ ?_ ?_ <;> simp [here]
  | wait _ _ here =>
    refine hi.goes ?_ ?_ ?_ fun _ => hi.one (.inl here) <;> simp [here]
  | done _ _ here =>
    refine hi.goes ?_ ?_ ?_ ?_ <;> simp [here]
  | rest _ _ here =>
    refine hi.goes ?_ ?_ (fun _ => rfl) fun _ => hi.one (.inr (.inl here)) <;> simp [here]
  | set _ _ here =>
    have hk := hi.kernel.countDown 1
    have hn : ¬ r.kernel.UserMode := fun hu => by
      have hp := hi.mode.mpr hu
      rw [here] at hp
      cases hp
    exact ⟨hk, ⟨fun h => (by cases h), fun h => absurd h hn⟩, fun h => (by rcases h with h | h <;> cases h),
      fun _ => Int.le_refl 1⟩
  | dispatched kernel flags here p ready queue ring0 =>
    have hn : ¬ r.kernel.UserMode := fun hu => by
      have hp := hi.mode.mpr hu
      rw [here] at hp
      cases hp
    have hk := (Kernel.Outcome.dispatched kernel flags p ready queue hn ring0).inv hi.kernel
    refine ⟨hk, ⟨fun _ => ?_, fun _ => rfl⟩, fun _ => rfl, fun h => (by rcases h with h | h | h <;> cases h)⟩
    by_contra hu
    have hnil : r.kernel.runningQueue ++ [p] = [] := (hk.kernel hu).2
    exact absurd (List.append_eq_nil_iff.mp hnil).2 (List.cons_ne_nil p [])
  | interrupted a k label s handled =>
    obtain ⟨-, hcd, hmode, htick⟩ := interrupt_frame label hi.kernel handled
    refine ⟨Kernel.inv_step hi.kernel handled, ?_, ?_, ?_⟩
    · cases hp : r.point with
      | process =>
        by_cases hu : s.UserMode <;> simp [resume, hu]
      | _ =>
        have hn : ¬ s.UserMode := fun hu => by
          have hpr := hi.mode.mpr (hmode hu)
          rw [hp] at hpr
          cases hpr
        simp [resume, hn]
    · show resume r.point s = .halted ∨ resume r.point s = .process → _
      cases hp : r.point with
      | process =>
        by_cases hu : s.UserMode
        · have h1 : a.ticks ≠ 1 := fun h1 => htick h1 hu
          simp [h1, hi.rested (.inr hp)]
        · simp [resume, hu]
      | _ => simp [resume]
    · show resume r.point s = .compare ∨ resume r.point s = .hlt ∨ resume r.point s = .halted → s.countDown ≤ 1
      intro h
      have hle : r.kernel.countDown ≤ 1 := by
        refine hi.one ?_
        cases hp : r.point with
        | process =>
          rw [hp] at h
          by_cases hu : s.UserMode <;> simp [resume, hu] at h
        | loop => simp [resume, hp] at h
        | usleep => simp [resume, hp] at h
        | _ => simp
      omega

theorem inv_step (hi : r.Inv) (hs : r.Step a r') : r'.Inv := hs.outcome.inv hi

theorem inv_run {as : List RoundAction} (hi : r.Inv) (h : Path Step r as r') : r'.Inv :=
  h.inv (fun _ _ _ hi hs => inv_step hi hs) hi

end

/-! ## a small run -/

/-- the state after a step that does not halt -/
def next (r : Rounds) (a : RoundAction) : Rounds := (r.step a).getD r

theorem step_next {r : Rounds} {a : RoundAction} (hen : r.Enabled a) (hok : (r.step a).isSome = true) :
    r.Step a (r.next a) := by
  refine ⟨hen, ?_⟩
  rw [next]
  revert hok
  cases r.step a with
  | some r' => exact fun _ => rfl
  | none => exact fun h => absurd h Bool.false_ne_true

/-- a process is created -/
def oneCreated : Rounds := ⟨(Kernel.boot Kernel.smallMachine).next (.execv Kernel.smallImage), .loop, true⟩

theorem oneCreated_booted : Booted Kernel.smallMachine oneCreated :=
  ⟨[Kernel.smallImage], _, ⟨_, Kernel.step_next trivial rfl, rfl⟩, rfl⟩

/-- a timer interrupt while the thread or a process runs, and the next statement of the thread -/
def tickIn (regs : Regs) : RoundAction := .timer (Kernel.trapOf regs 0)
def statement : RoundAction := .run Kernel.ring0 0x202

/-- the property holds at every point of the run that the labels lead along -/
def Holds (P : Rounds → RoundAction → Prop) : Rounds → List RoundAction → Prop
  | _, [] => True
  | r, a :: as => P r a ∧ Holds P (r.next a) as

instance decidableHolds (P : Rounds → RoundAction → Prop) [∀ r a, Decidable (P r a)] :
    (r : Rounds) → (as : List RoundAction) → Decidable (Holds P r as)
  | _, [] => isTrue trivial
  | r, a :: as => @instDecidableAnd _ _ _ (decidableHolds P (r.next a) as)

theorem path_of_holds {r : Rounds} {as : List RoundAction}
    (h : Holds (fun r a => r.Enabled a ∧ (r.step a).isSome = true) r as) : Path Step r as (as.foldl next r) := by
  induction as generalizing r with
  | nil => rfl
  | cons a as ih => exact ⟨_, step_next h.1.1 h.1.2, ih h.2⟩

theorem along_of_holds {P : Rounds → RoundAction → Prop} {r : Rounds} {as : List RoundAction}
    (h : Holds P r as) : Along Step P r as := by
  induction as generalizing r with
  | nil => trivial
  | cons a as ih =>
    refine ⟨h.1, fun r' hs => ?_⟩
    have e : r.next a = r' := by rw [next, hs.2, Option.getD_some]
    exact e ▸ ih h.2

/-- it is entered, preempted and entered again, and preempted -/
def fourTicks : List RoundAction :=
  [tickIn Kernel.ring0, statement, tickIn Kernel.ring3, statement, statement, statement,
    tickIn Kernel.ring0, statement, statement, tickIn Kernel.ring3]

theorem fourTicks_run : Path Step oneCreated fourTicks (fourTicks.foldl next oneCreated) ∧
    Along Step Prompt oneCreated fourTicks :=
  ⟨path_of_holds (by decide), along_of_holds (by decide)⟩

/-! ## how long a process waits -/

section
variable {r r' : Rounds} {a : RoundAction}

end

/-- the step enters a process -/
def enters (r : Rounds) : RoundAction → Nat
  | .run _ _ => if r.point = .loop ∧ r.kernel.readyQueue ≠ [] then 1 else 0
  | _ => 0

/-- the step takes the CPU away from a process -/
def preempts (r : Rounds) : RoundAction → Nat
  | .timer _ => if r.point = .process then 1 else 0
  | _ => 0

/-- how often that happens along a run -/
def tally (f : Rounds → RoundAction → Nat) (r : Rounds) : List RoundAction → Nat
  | [] => 0
  | a :: as => f r a + tally f (r.next a) as

/-- a timer interrupt that the next process has to wait for -/
def pending (r : Rounds) : Nat :=
  match r.point with
  | .loop => 0
  | .usleep => 1
  | .process => 1
  | _ => if 0 < r.kernel.countDown then 1 else 0

section
variable {r r' : Rounds} {a : RoundAction}

theorem pending_interrupted (hi : r.Inv) {k : Action} {s : Kernel} (label : a.interrupt = some k)
    (handled : r.kernel.Step k s) : preempts r a + r.pending ≤
      a.ticks + (⟨s, resume r.point s, if a.ticks = 1 then false else r.rested⟩ : Rounds).pending := by
  obtain ⟨-, hcd, -, htick⟩ := interrupt_frame label hi.kernel handled
  have hpre : r.point ≠ .process → preempts r a = 0 := fun hne => by
    cases a with
    | timer t => exact if_neg hne
    | _ => rfl
  have hle : preempts r a ≤ a.ticks := by
    cases a with
    | timer t =>
      show (if r.point = .process then 1 else 0) ≤ 1
      split <;> decide
    | _ => exact Nat.le_refl 0
  have hcases : a.ticks = 1 ∨ a.ticks = 0 := by cases a <;> simp [RoundAction.ticks]
  unfold pending
  cases hq : r.point with
  | loop =>
    have h0 := hpre (by simp [hq])
    simp [h0]
  | usleep =>
    have h0 := hpre (by simp [hq])
    simp [h0, resume]
  | process =>
    by_cases hu : s.UserMode <;> simp [resume, hu] <;> omega
  | compare =>
    have h0 := hpre (by simp [hq])
    have hone := hi.one (.inl hq)
    simp only [h0, resume]
    split <;> split <;> omega
  | hlt =>
    have h0 := hpre (by simp [hq])
    have hone := hi.one (.inr (.inl hq))
    simp only [h0, resume]
    split <;> split <;> omega
  | halted =>
    have h0 := hpre (by simp [hq])
    have hone := hi.one (.inr (.inr hq))
    simp only [h0, resume]
    split <;> split <;> omega

/-- an entry and a preemption each leave one timer interrupt to wait for -/
theorem pending_step (hi : r.Inv) (hs : r.Step a r') :
    enters r a + preempts r a + r.pending ≤ a.ticks + r'.pending := by
  cases hs.outcome with
  | idle _ _ here empty =>
    simp [enters, preempts, pending, here, empty]
  | dispatched _ _ here p ready queue => simp [enters, preempts, pending, here, queue]
  | set _ _ here => simp [enters, preempts, pending, here]
  | wait _ _ here positive => simp [enters, preempts, pending, here]
  | done _ _ here ended => simp [enters, preempts, pending, here, Int.not_lt.mpr ended]
  | rest _ _ here => simp [enters, preempts, pending, here]
  | interrupted _ k label s handled =>
    have h0 : enters r a = 0 := by
      cases a with
      | run kernel flags => cases label
      | _ => rfl
    rw [h0, Nat.zero_add]
    exact pending_interrupted hi label handled

end

theorem tally_run {r r' : Rounds} {as : List RoundAction} (hi : r.Inv) (h : Path Step r as r') :
    tally enters r as + tally preempts r as + r.pending ≤ (as.map RoundAction.ticks).sum + r'.pending := by
  induction as generalizing r with
  | nil =>
    obtain rfl := path_nil.mp h
    exact Nat.le_of_eq (by simp [tally])
  | cons a as ih =>
    obtain ⟨m, hm, h'⟩ := h
    have e : r.next a = m := by rw [next, hm.2, Option.getD_some]
    have hone := pending_step hi hm
    have hrest := ih (inv_step hi hm) h'
    rw [tally, tally, e, List.map_cons, List.sum_cons]
    omega

/-- **In every run the processes entered and the processes preempted are together no more than the timer
interrupts and one.** -/
theorem preempted_half (b : BootState) (r₀ r : Rounds) (as : List RoundAction) (hb : Booted b r₀)
    (h : Path Step r₀ as r) :
    tally enters r₀ as + tally preempts r₀ as ≤ (as.map RoundAction.ticks).sum + 1 := by
  have hrun := tally_run (inv_booted hb) h
  have hlast : r.pending ≤ 1 := by
    unfold pending
    cases r.point <;> dsimp only <;> (try split) <;> omega
  omega

theorem preempted_half_one : tally enters oneCreated fourTicks + tally preempts oneCreated fourTicks ≤ 5 :=
  preempted_half Kernel.smallMachine oneCreated _ fourTicks oneCreated_booted fourTicks_run.1

end Rounds
end StarOS
