import Mathlib.Data.List.Induction
import StarOS.Keyboard.Chars
import StarOS.Kernel.Gets

/-!
# The answer to a `gets` call

A process calls `gets` and no other call of `gets` follows while keys are pressed and released.

* `keyEvents`, `chars`   the events and the characters of a run since the kernel was booted;
* `GetsCall`     such a call, in any run, and `Served`: it gets the first characters typed since, and
                 is complete with the last of them;
* `Progress`     what holds after every run that follows the call;
* `served_iff`   every call is served but one that asks for nothing.
-/

namespace StarOS
open Lib

/-! ## the keys of a run -/

def Action.keyBytes : Action → List UInt8
  | .keyboard t => [t.data]
  | _ => []

/-- the events that the bytes of a run dispatch -/
def keyEvents (as : List Action) : List KeyEvent :=
  match decode 0 (as.flatMap Action.keyBytes) with
  | .ok t => t.2.map keyevent
  | .error _ => []

/-- the characters typed in a run -/
def chars (as : List Action) : List UInt8 := charsOf (keyEvents as)

/-- the keyboard has followed the run -/
structure Heard (as : List Action) (k : Keyboard) : Prop where
  decoded : ∃ is, decode 0 (as.flatMap Action.keyBytes) = .ok (k.scanCode, is)
  knows : k.Knows (keyEvents as)

theorem keyEvents_of_decode {as : List Action} {n : Nat} {is : List Nat}
    (h : decode 0 (as.flatMap Action.keyBytes) = .ok (n, is)) : keyEvents as = is.map keyevent := by
  rw [keyEvents, h]

theorem keyBytes_snoc (as : List Action) (a : Action) :
    (as ++ [a]).flatMap Action.keyBytes = as.flatMap Action.keyBytes ++ a.keyBytes := by
  rw [List.flatMap_append, List.flatMap_singleton]

theorem keyBytes_other {a : Action} (ha : ∀ x, a ≠ .keyboard x) : a.keyBytes = [] := by
  cases a with
  | keyboard x => exact absurd rfl (ha x)
  | _ => rfl

/-! ## the call -/

/-- a process calls `gets`, and the call returns to the scheduler -/
structure GetsCall where
  machine : BootState
  /-- the run before the call -/
  past : List Action
  kernel : Kernel
  reached : Path Kernel.Step (Kernel.boot machine) past kernel
  process : Nat
  running : kernel.runningQueue = [process]
  trap : Trap
  asks : trap.regs.eax = 4
  blocked : Kernel
  call : kernel.Step (.syscall trap) blocked

/-- no request is registered -/
structure Cleared (s : Kernel) : Prop where
  gets : s.keyboard.gets = ⟨false, 0, 0, 0⟩
  waiting : s.processWaitingGets = none

/-- characters and the places of a buffer they belong to -/
def placed (buffer : UInt32) (cs : List UInt8) : List (UInt32 × UInt8) :=
  cs.mapIdx fun i c => (buffer + UInt32.ofNat i, c)

/-- the memory after these stores -/
def written (m : UInt32 → UInt8) (stores : List (UInt32 × UInt8)) : UInt32 → UInt8 :=
  stores.foldl (fun m u => Function.update m u.1 u.2) m

namespace GetsCall

def buffer (c : GetsCall) : UInt32 := c.trap.regs.ebx

def count (c : GetsCall) : Nat := c.trap.regs.ecx.toNat

/-- nobody calls `gets` while the actions `as` lead to `s` -/
def Run (c : GetsCall) (as : List Action) (s : Kernel) : Prop :=
  (∀ a ∈ as, a.asks = none) ∧ Path Kernel.Step c.blocked as s

/-- the run from the boot on -/
def whole (c : GetsCall) (as : List Action) : List Action := c.past ++ [.syscall c.trap] ++ as

/-- the characters typed since the call -/
def typed (c : GetsCall) (as : List Action) : List UInt8 := (chars (c.whole as)).drop (chars c.past).length

/-- the stores through `gets_buffer` since the call -/
def stores (c : GetsCall) (s : Kernel) : List (UInt32 × UInt8) :=
  (s.stores.drop c.kernel.stores.length).map fun u => (u.address, u.byte)

/-- the process waits for the characters that follow the first `n` -/
structure Waits (c : GetsCall) (n : Nat) (s : Kernel) : Prop where
  blocked : c.process ∈ s.blockingQueue
  waiting : s.processWaitingGets = some c.process
  gets : s.keyboard.gets = ⟨true, c.trap.regs.ecx, UInt32.ofNat n, c.buffer⟩

/-- the step from `s` to `t` completes the call -/
structure Completed (c : GetsCall) (s t : Kernel) : Prop where
  moved : t.readyQueue = s.readyQueue ++ [c.process]
  once : t.readyQueue.count c.process = 1
  awake : c.process ∉ t.blockingQueue
  eax : (t.procs c.process).context.eax = c.buffer
  cleared : Cleared t

structure Served (c : GetsCall) : Prop where
  /-- the first `count` characters are stored, in order, each at its place, and nothing else -/
  stored : ∀ as s, c.Run as s → c.stores s = placed c.buffer ((c.typed as).take c.count)
  /-- nothing is stored outside the buffer -/
  inside : ∀ as s, c.Run as s → ∀ u ∈ c.stores s, ∃ i < c.count, u.1 = c.buffer + UInt32.ofNat i
  /-- the process waits while characters are missing -/
  waits : ∀ as s, c.Run as s → (c.typed as).length < c.count → c.Waits (c.typed as).length s
  /-- no byte that is decoded halts the kernel -/
  proceeds : ∀ as s, c.Run as s → ∀ x, s.Enabled (.keyboard x) → ∀ r,
    decode s.keyboard.scanCode [x.data] = .ok r → ∃ t, s.Step (.keyboard x) t
  /-- the call is complete with the last character -/
  completes : ∀ as s, c.Run as s → (c.typed as).length < c.count → ∀ a t, a.asks = none → s.Step a t →
    c.count ≤ (c.typed (as ++ [a])).length → c.Completed s t
  /-- or at once if there is nothing to wait for -/
  completesAtOnce : c.count = 0 → c.Completed c.kernel c.blocked
  /-- then the buffer holds the characters, wherever it is -/
  holds : ∀ as s, c.Run as s → c.count ≤ (c.typed as).length → ∀ m, ∀ i < c.count,
    (c.typed as)[i]? = some (written m (c.stores s) (c.buffer + UInt32.ofNat i))
  /-- and nothing is left of the request -/
  cleared : ∀ as s, c.Run as s → c.count ≤ (c.typed as).length → Cleared s

end GetsCall

/-! ## the keyboard along a run -/

namespace Kernel
section
variable {s t : Kernel} {a : Action}

/-- a step that is neither a keyboard interrupt nor a call of `gets` -/
theorem Step.request (hs : s.Step a t) (hi : s.Inv) (ha : ∀ x, a ≠ .keyboard x) (hasks : a.asks = none) :
    t.keyboard = s.keyboard ∧ t.processWaitingGets = s.processWaitingGets ∧ t.stores = s.stores := by
  cases hs.outcome hi with
  | typed x => exact absurd rfl (ha x)
  | answered x => exact absurd rfl (ha x)
  | gets x p paging _ _ h4 =>
    rw [Ledger.asks_eq_some h4] at hasks
    cases hasks
  | _ => exact ⟨rfl, rfl, rfl⟩

/-- a step that is no keyboard interrupt -/
theorem Step.keyboard_other (hs : s.Step a t) (hi : s.Inv) (ha : ∀ x, a ≠ .keyboard x) :
    t.keyboard = { s.keyboard with gets := t.keyboard.gets } := by
  cases hs.outcome hi with
  | typed x => exact absurd rfl (ha x)
  | answered x => exact absurd rfl (ha x)
  | _ => rfl

theorem Step.keyboard {x : Trap} (hs : s.Step (.keyboard x) t) (hi : s.Inv) :
    ∃ r, ps2KeyboardInterrupt s.keyboard x.data = .ok r ∧
      t.keyboard = { r.keyboard with gets := t.keyboard.gets } := by
  cases hs.outcome hi with
  | typed _ r hr => exact ⟨r, hr, rfl⟩
  | answered _ r _ hr => exact ⟨r, hr, rfl⟩

end
end Kernel

theorem heard_boot (b : BootState) : Heard [] (Kernel.boot b).keyboard :=
  ⟨⟨[], rfl⟩, Keyboard.knows_boot⟩

section
variable {as : List Action} {a : Action} {s t : Kernel} {k : Keyboard}

theorem Heard.gets (h : Heard as k) (gets : Gets) : Heard as { k with gets := gets } :=
  ⟨h.decoded, h.knows.left, h.knows.right⟩

theorem keyEvents_other (as : List Action) (ha : ∀ x, a ≠ .keyboard x) :
    keyEvents (as ++ [a]) = keyEvents as := by
  rw [keyEvents, keyEvents, keyBytes_snoc, keyBytes_other ha, List.append_nil]

theorem Heard.other (h : Heard as k) (ha : ∀ x, a ≠ .keyboard x) : Heard (as ++ [a]) k := by
  constructor
  · rw [keyBytes_snoc, keyBytes_other ha, List.append_nil]
    exact h.decoded
  · rw [keyEvents_other as ha]
    exact h.knows

/-- the characters of one more byte follow -/
theorem Heard.byte (h : Heard as k) {x : Trap} {r : Response}
    (hr : ps2KeyboardInterrupt k x.data = .ok r) : Heard (as ++ [.keyboard x]) r.keyboard ∧
      ∃ cs, chars (as ++ [.keyboard x]) = chars as ++ cs ∧ k.Takes r cs := by
  obtain ⟨is, his⟩ := h.decoded
  obtain ⟨js, hjs, hknows, htakes⟩ := Keyboard.interrupt_takes hr h.knows
  have hd : decode 0 ((as ++ [Action.keyboard x]).flatMap Action.keyBytes)
      = .ok (r.keyboard.scanCode, is ++ js) := by
    rw [keyBytes_snoc, decode_append, his]
    show (decode k.scanCode [x.data]).map _ = _
    rw [hjs]
    rfl
  have hevents : keyEvents (as ++ [.keyboard x]) = keyEvents as ++ js.map keyevent := by
    rw [keyEvents_of_decode hd, keyEvents_of_decode his, List.map_append]
  refine ⟨⟨⟨_, hd⟩, ?_⟩, _, ?_, htakes⟩
  · rw [hevents]
    exact hknows
  · rw [chars, hevents, charsOf_append]
    rfl

theorem Heard.step (h : Heard as s.keyboard) (hi : s.Inv) (hs : s.Step a t) :
    Heard (as ++ [a]) t.keyboard := by
  by_cases hkey : ∃ x, a = .keyboard x
  · obtain ⟨x, rfl⟩ := hkey
    obtain ⟨r, hr, ht⟩ := hs.keyboard hi
    rw [ht]
    exact (h.byte hr).1.gets _
  · have ha : ∀ x, a ≠ .keyboard x := not_exists.mp hkey
    rw [hs.keyboard_other hi ha]
    exact (h.other ha).gets _

theorem heard_run {b : BootState} (h : Path Kernel.Step (Kernel.boot b) as s) : Heard as s.keyboard := by
  induction as using List.reverseRecOn generalizing s with
  | nil => exact path_nil.mp h ▸ heard_boot b
  | append_singleton as a ih =>
    obtain ⟨m, hm, hs⟩ := path_snoc.mp h
    exact (ih hm).step (Kernel.inv_run hm) hs

end

/-! ## stores into a buffer -/

theorem placed_snoc (buffer : UInt32) (cs : List UInt8) (c : UInt8) :
    placed buffer (cs ++ [c]) = placed buffer cs ++ [(buffer + UInt32.ofNat cs.length, c)] :=
  List.mapIdx_concat

theorem place_inj {buffer : UInt32} {i j : Nat} (hi : i < 2^32) (hj : j < 2^32)
    (h : buffer + UInt32.ofNat i = buffer + UInt32.ofNat j) : i = j := by
  have h := congrArg UInt32.toNat ((UInt32.add_right_inj buffer).mp h)
  rwa [UInt32.toNat_ofNat_of_lt' hi, UInt32.toNat_ofNat_of_lt' hj] at h

theorem written_placed (m : UInt32 → UInt8) (buffer : UInt32) {cs : List UInt8} (hlen : cs.length ≤ 2^32)
    {i : Nat} (hi : i < cs.length) :
    cs[i]? = some (written m (placed buffer cs) (buffer + UInt32.ofNat i)) := by
  induction cs using List.reverseRecOn with
  | nil => exact absurd hi (Nat.not_lt_zero _)
  | append_singleton cs c ih =>
    rw [List.length_append, List.length_singleton] at hlen hi
    rw [placed_snoc, written, List.foldl_append, List.foldl_cons, List.foldl_nil]
    by_cases hlast : i = cs.length
    · rw [hlast, List.getElem?_concat_length, Function.update_self]
    · have hne : buffer + UInt32.ofNat i ≠ buffer + UInt32.ofNat cs.length :=
        fun e => hlast (place_inj (by omega) (by omega) e)
      rw [List.getElem?_append_left (by omega), Function.update_of_ne hne]
      exact ih (by omega) (by omega)

theorem next_eq_iff {count : UInt32} {n : Nat} (h : n < count.toNat) :
    UInt32.ofNat n + 1 = count ↔ n + 1 = count.toNat := by
  have hlt := count.toNat_lt
  have e : (UInt32.ofNat n + 1).toNat = n + 1 := by
    rw [show UInt32.ofNat n + 1 = UInt32.ofNat (n + 1) from (UInt32.ofNat_add n 1).symm]
    exact UInt32.toNat_ofNat_of_lt' (Nat.lt_of_le_of_lt h hlt)
  rw [← e]
  exact UInt32.toNat_inj.symm

/-! ## one step -/

namespace GetsCall

/-- what a step types for a call that waits after `n` characters -/
inductive Effect (c : GetsCall) (n : Nat) (s t : Kernel) : List UInt8 → Prop
  | none (stores : t.stores = s.stores) (waits : c.Waits n t) : Effect c n s t []
  | next (byte : UInt8) (stores : t.stores = s.stores ++ [⟨s.cr3, c.buffer + UInt32.ofNat n, byte⟩])
      (room : n + 1 < c.count) (waits : c.Waits (n + 1) t) : Effect c n s t [byte]
  | last (byte : UInt8) (stores : t.stores = s.stores ++ [⟨s.cr3, c.buffer + UInt32.ofNat n, byte⟩])
      (full : n + 1 = c.count) (completed : c.Completed s t) : Effect c n s t [byte]

section
variable {c : GetsCall} {as : List Action} {a : Action} {s t : Kernel} {n : Nat}

theorem Waits.other (w : c.Waits n s) (ht : t.Inv) (hk : t.keyboard = s.keyboard)
    (hp : t.processWaitingGets = s.processWaitingGets) : c.Waits n t := by
  have hgets := w.gets
  rw [← hk] at hgets
  have hwaiting := hp.trans w.waiting
  obtain ⟨q, hq, hblocked, -⟩ := ht.waiter (by rw [hgets])
  obtain rfl := Option.some.inj (hq.symm.trans hwaiting)
  exact ⟨hblocked, hwaiting, hgets⟩

/-- the process that waits is in no other queue -/
theorem Waits.completed (w : c.Waits n s) (hi : s.Inv) {x : Trap} {r : Response}
    (hgets : r.keyboard.gets.enabled = false) (hbuffer : r.keyboard.gets.buffer = c.buffer) :
    c.Completed s ((s.typed r x).answer c.process) where
  moved := rfl
  once := by
    have hready : c.process ∉ s.readyQueue := fun h => hi.placed.not_blocking_of_ready h w.blocked
    show (s.readyQueue ++ [c.process]).count c.process = 1
    rw [List.count_append, List.count_eq_zero_of_not_mem hready, List.count_singleton_self]
  awake := by
    intro hb
    exact (hi.placed.blocking_nodup.mem_sdiff_iff.mp hb).2 (List.mem_singleton_self _)
  eax := by
    refine (congrArg (fun cxt : Context => cxt.eax) (Kernel.wakeAll_context _ [c.process] c.process)).trans ?_
    show (if c.process = c.process then _ else s.procs c.process).context.eax = _
    rw [if_pos rfl]
    exact hbuffer
  cleared := by
    refine ⟨?_, rfl⟩
    show (⟨r.keyboard.gets.enabled, 0, 0, 0⟩ : Gets) = _
    rw [hgets]

theorem Waits.byte (w : c.Waits n s) (hn : n < c.count) (hi : s.Inv) {x : Trap}
    (hs : s.Step (.keyboard x) t) {r : Response} (hr : ps2KeyboardInterrupt s.keyboard x.data = .ok r)
    {cs : List UInt8} (h : s.keyboard.Takes r cs) : c.Effect n s t cs := by
  have ht := Kernel.inv_step hi hs
  cases h with
  | quiet _ hnone hstore hgets =>
    have hen : s.keyboard.gets.enabled = true := by rw [w.gets]
    have hcs := hnone.resolve_left fun h => absurd (h.symm.trans hen) Bool.false_ne_true
    subst hcs
    cases hs.outcome hi with
    | typed _ r' hr' =>
      obtain rfl := Except.ok.inj (hr'.symm.trans hr)
      refine .none ?_ ⟨w.blocked, w.waiting, hgets.trans w.gets⟩
      show s.stores ++ _ = _
      rw [hstore]
      exact List.append_nil _
    | answered _ r' _ hr' _ _ hdone =>
      obtain rfl := Except.ok.inj (hr'.symm.trans hr)
      rw [hgets, hen] at hdone
      cases hdone
  | char byte hen hstore hgets =>
    rw [w.gets] at hstore hgets
    have hlast := next_eq_iff hn
    by_cases hfull : UInt32.ofNat n + 1 = c.trap.regs.ecx
    · have hoff : r.keyboard.gets.enabled = false := by
        rw [hgets]
        exact bne_eq_false_iff_eq.mpr hfull
      cases hs.outcome hi with
      | typed _ r' hr' _ hpending =>
        -- the request would have to be over already
        obtain rfl := Except.ok.inj (hr'.symm.trans hr)
        have hzero : c.trap.regs.ecx = 0 := by
          rw [hgets] at hpending
          refine hpending.resolve_left fun he => ?_
          exact absurd ((bne_eq_false_iff_eq.mpr hfull).symm.trans he) Bool.false_ne_true
        rw [count, hzero] at hn
        exact absurd hn (Nat.not_lt_zero _)
      | answered _ r' p hr' _ _ _ hp =>
        obtain rfl := Except.ok.inj (hr'.symm.trans hr)
        obtain rfl := Option.some.inj (hp.symm.trans w.waiting)
        refine .last byte ?_ (hlast.mp hfull) (w.completed hi hoff (by rw [hgets]))
        show s.stores ++ r'.store.toList.map _ = _
        rw [hstore]
        rfl
    · have hon : r.keyboard.gets.enabled = true := by
        rw [hgets]
        exact bne_iff_ne.mpr hfull
      have hroom : n + 1 < c.count := by
        have hne : n + 1 ≠ c.count := fun e => hfull (hlast.mpr e)
        omega
      cases hs.outcome hi with
      | typed _ r' hr' =>
        obtain rfl := Except.ok.inj (hr'.symm.trans hr)
        refine .next byte ?_ hroom ⟨w.blocked, w.waiting, ?_⟩
        · show s.stores ++ r'.store.toList.map _ = _
          rw [hstore]
          rfl
        · refine hgets.trans ?_
          rw [bne_iff_ne.mpr hfull, UInt32.ofNat_add]
          rfl
      | answered _ r' _ hr' _ _ hdone =>
        obtain rfl := Except.ok.inj (hr'.symm.trans hr)
        exact absurd (hdone.symm.trans hon) Bool.false_ne_true

/-! ## a run -/

theorem whole_snoc (c : GetsCall) (as : List Action) (a : Action) :
    c.whole (as ++ [a]) = c.whole as ++ [a] := (List.append_assoc _ _ _).symm

theorem chars_call (c : GetsCall) : chars (c.whole []) = chars c.past := by
  rw [whole, List.append_nil, chars, keyEvents_other c.past fun x h => by cases h]
  rfl

/-- what holds after a run that follows the call -/
structure Progress (c : GetsCall) (as : List Action) (s : Kernel) : Prop where
  inv : s.Inv
  heard : Heard (c.whole as) s.keyboard
  since : chars (c.whole as) = chars c.past ++ c.typed as
  kept : c.kernel.stores <+: s.stores
  stored : c.stores s = placed c.buffer ((c.typed as).take c.count)
  state : ((c.typed as).length < c.count ∧ c.Waits (c.typed as).length s) ∨
    (c.count ≤ (c.typed as).length ∧ Cleared s)

/-- the call itself types and stores nothing -/
theorem progress_call (hn : c.count ≠ 0) : c.Progress [] c.blocked := by
  have hi := Kernel.inv_run c.reached
  have htyped : c.typed [] = [] := by rw [typed, chars_call, List.drop_length]
  obtain ⟨paging, hb⟩ := c.call.gets hi c.running c.asks
  have hstores : c.blocked.stores = c.kernel.stores := by rw [hb]; rfl
  refine ⟨Kernel.inv_step hi c.call, ?_, ?_, ?_, ?_, .inl ⟨?_, ?_⟩⟩
  · rw [whole, List.append_nil]
    exact (heard_run c.reached).step hi c.call
  · rw [chars_call, htyped, List.append_nil]
  · exact hstores ▸ List.prefix_refl _
  · rw [stores, hstores, List.drop_length, htyped, List.take_nil, placed, List.mapIdx_nil]
    rfl
  · rw [htyped]
    exact Nat.pos_of_ne_zero hn
  · rw [htyped, hb]
    exact ⟨List.mem_append_right _ (List.mem_singleton_self _), rfl, rfl⟩

/-- no request, nothing to store -/
theorem cleared_step (h : Cleared s) (hi : s.Inv) (hs : s.Step a t) (ha : a.asks = none) :
    Cleared t ∧ t.stores = s.stores := by
  have hoff : s.keyboard.gets.enabled = false := by rw [h.gets]
  by_cases hkey : ∃ x, a = .keyboard x
  · obtain ⟨x, rfl⟩ := hkey
    cases hs.outcome hi with
    | typed _ r hr =>
      obtain ⟨hcount, hbuffer, hen⟩ := interrupt_gets hr
      obtain ⟨halready, hstore⟩ := interrupt_store hr
      have hnone : r.store = none := by
        by_contra hne
        obtain ⟨u, hu⟩ := Option.ne_none_iff_exists'.mp hne
        exact absurd (hoff.symm.trans (hstore u.1 u.2 hu).1) Bool.false_ne_true
      refine ⟨⟨?_, h.waiting⟩, ?_⟩
      · show (⟨r.keyboard.gets.enabled, r.keyboard.gets.count, r.keyboard.gets.alreadyCount,
          r.keyboard.gets.buffer⟩ : Gets) = _
        rw [hen hoff, hcount, halready, hbuffer, hnone, h.gets]
        rfl
      · show s.stores ++ _ = _
        rw [hnone]
        exact List.append_nil _
    | answered _ _ _ _ _ hen => exact absurd (hoff.symm.trans hen) Bool.false_ne_true
  · obtain ⟨hk, hp, hstores⟩ := hs.request hi (not_exists.mp hkey) ha
    exact ⟨⟨by rw [hk, h.gets], hp.trans h.waiting⟩, hstores⟩

/-- the characters of one more step, and its effect on a call that waits -/
theorem Progress.effect (h : c.Progress as s) (hs : s.Step a t) (ha : a.asks = none) :
    ∃ cs, chars (c.whole (as ++ [a])) = chars (c.whole as) ++ cs ∧
      ((c.typed as).length < c.count → c.Effect (c.typed as).length s t cs) := by
  rw [whole_snoc]
  have hwaits : (c.typed as).length < c.count → c.Waits (c.typed as).length s := fun hlt =>
    (h.state.resolve_right fun hge => Nat.not_le_of_lt hlt hge.1).2
  by_cases hkey : ∃ x, a = .keyboard x
  · obtain ⟨x, rfl⟩ := hkey
    obtain ⟨r, hr, -⟩ := hs.keyboard h.inv
    obtain ⟨-, cs, hcs, htakes⟩ := h.heard.byte hr
    exact ⟨cs, hcs, fun hlt => (hwaits hlt).byte hlt h.inv hs hr htakes⟩
  · have hkey : ∀ x, a ≠ .keyboard x := not_exists.mp hkey
    obtain ⟨hk, hp, hstores⟩ := hs.request h.inv hkey ha
    refine ⟨[], ?_, fun hlt => .none hstores ((hwaits hlt).other (Kernel.inv_step h.inv hs) hk hp)⟩
    rw [chars, keyEvents_other _ hkey, List.append_nil]
    rfl

theorem Progress.typed_snoc (h : c.Progress as s) {cs : List UInt8}
    (hcs : chars (c.whole (as ++ [a])) = chars (c.whole as) ++ cs) :
    c.typed (as ++ [a]) = c.typed as ++ cs := by
  rw [typed, hcs, h.since, List.append_assoc, List.drop_left]

theorem stores_snoc (h : c.kernel.stores <+: s.stores) {u : UserStore} (ht : t.stores = s.stores ++ [u]) :
    c.stores t = c.stores s ++ [(u.address, u.byte)] := by
  rw [stores, ht, List.drop_append_of_le_length h.length_le, List.map_append]
  rfl

/-- a character that is missing is stored behind the others -/
theorem Progress.stored_snoc (h : c.Progress as s) (hlt : (c.typed as).length < c.count) {byte : UInt8}
    (ht : t.stores = s.stores ++ [⟨s.cr3, c.buffer + UInt32.ofNat (c.typed as).length, byte⟩])
    (htyped : c.typed (as ++ [a]) = c.typed as ++ [byte]) :
    c.kernel.stores <+: t.stores ∧ c.stores t = placed c.buffer ((c.typed (as ++ [a])).take c.count) := by
  have hlen : (c.typed (as ++ [a])).length ≤ c.count := by
    rw [htyped, List.length_append, List.length_singleton]
    exact hlt
  have hold := h.stored
  rw [List.take_of_length_le (Nat.le_of_lt hlt)] at hold
  constructor
  · rw [ht]
    exact h.kept.trans (List.prefix_append _ _)
  · rw [stores_snoc h.kept ht, hold, List.take_of_length_le hlen, htyped, placed_snoc]

theorem Progress.step (h : c.Progress as s) (hs : s.Step a t) (ha : a.asks = none) :
    c.Progress (as ++ [a]) t := by
  have hi := Kernel.inv_step h.inv hs
  have hheard : Heard (c.whole (as ++ [a])) t.keyboard := by
    rw [whole_snoc]
    exact h.heard.step h.inv hs
  obtain ⟨cs, hcs, heffect⟩ := h.effect hs ha
  have htyped := h.typed_snoc hcs
  have hsince : chars (c.whole (as ++ [a])) = chars c.past ++ c.typed (as ++ [a]) := by
    rw [hcs, h.since, htyped, List.append_assoc]
  rcases h.state with ⟨hlt, -⟩ | ⟨hge, hcleared⟩
  · have hlen : ∀ byte, c.typed (as ++ [a]) = c.typed as ++ [byte] →
        (c.typed (as ++ [a])).length = (c.typed as).length + 1 := by
      intro byte e
      rw [e, List.length_append, List.length_singleton]
    cases heffect hlt with
    | none hstores hwaits =>
      rw [List.append_nil] at htyped
      refine ⟨hi, hheard, hsince, hstores ▸ h.kept, ?_, .inl ?_⟩
      · rw [stores, hstores, htyped]
        exact h.stored
      · rw [htyped]
        exact ⟨hlt, hwaits⟩
    | next byte hstores hroom hwaits =>
      obtain ⟨hkept, hstored⟩ := h.stored_snoc hlt hstores htyped
      refine ⟨hi, hheard, hsince, hkept, hstored, .inl ?_⟩
      rw [hlen byte htyped]
      exact ⟨hroom, hwaits⟩
    | last byte hstores hfull hcompleted =>
      obtain ⟨hkept, hstored⟩ := h.stored_snoc hlt hstores htyped
      refine ⟨hi, hheard, hsince, hkept, hstored, .inr ?_⟩
      rw [hlen byte htyped]
      exact ⟨Nat.le_of_eq hfull.symm, hcompleted.cleared⟩
  · obtain ⟨hcleared, hstores⟩ := cleared_step hcleared h.inv hs ha
    refine ⟨hi, hheard, hsince, hstores ▸ h.kept, ?_, .inr ⟨?_, hcleared⟩⟩
    · rw [stores, hstores, htyped, List.take_append_of_le_length hge]
      exact h.stored
    · rw [htyped, List.length_append]
      exact Nat.le_add_right_of_le hge

theorem progress_run (hn : c.count ≠ 0) (h : c.Run as s) : c.Progress as s := by
  obtain ⟨hasks, hrun⟩ := h
  induction as using List.reverseRecOn generalizing s with
  | nil => exact path_nil.mp hrun ▸ progress_call hn
  | append_singleton as a ih =>
    obtain ⟨m, hm, hs⟩ := path_snoc.mp hrun
    have hm := ih (fun b hb => hasks b (List.mem_append_left _ hb)) hm
    exact hm.step hs (hasks a (List.mem_append_right _ (List.mem_singleton_self a)))

/-! ## the whole call -/

end

/-- a process asks for `count` characters -/
def askingTrap (count : UInt32) : Trap :=
  Kernel.trapOf { Kernel.ring3 with eax := 4, ebx := 0x08049000, ecx := count } 0

/-- the first process of a small machine asks for them -/
def asking (count : UInt32) (h : (Kernel.oneRuns.step (.syscall (askingTrap count))).isOk = true) : GetsCall where
  machine := Kernel.smallMachine
  past := [.execv Kernel.smallImage, .dispatch Kernel.ring0 0x202]
  kernel := Kernel.oneRuns
  reached := Kernel.oneRuns_run
  process := 0
  running := rfl
  trap := askingTrap count
  asks := rfl
  blocked := Kernel.oneRuns.next (.syscall (askingTrap count))
  call := Kernel.step_next ⟨(by decide : Kernel.ring3.user), by decide⟩ h

end GetsCall

end StarOS
