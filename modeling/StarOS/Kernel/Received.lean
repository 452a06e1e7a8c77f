import StarOS.Kernel.FlatMemory

/-!
# A line that is typed for a process (`system_entry`, `hardware_interrupt_handler`, `response_scancode`)

What is in memory does not take the kernel another way, so a run with stores has a run of the kernel alone beside it,
to which the results about the keyboard and about `gets` apply.

* `Kernel.withPaging`  the same kernel over another memory, `Step.withPaging` a step of it;
* `run_over`           the run of the kernel alone;
* `stores_run`, `found_run`   while only `p` waits, it finds what the kernel stores;
* `gets_received`      **a process that calls `gets` finds the characters typed since in its own memory.**
-/

namespace StarOS
open Lib

/-! ## the kernel over another memory -/

/-- a computation that returns, and what comes first in it -/
theorem except_bind_ok {α β : Type} {x : Except Fatal α} {g : α → Except Fatal β} {b : β} (h : x.bind g = .ok b) :
    ∃ a, x = .ok a ∧ g a = .ok b := by
  cases x with
  | error e => cases h
  | ok a => exact ⟨a, rfl, h⟩

namespace Kernel

/-- the same kernel over other page tables and other memory -/
def withPaging (s : Kernel) (paging : Paging) : Kernel := { s with paging := paging }

section
variable {s t : Kernel} {a : Action}

theorem copyProcessMapping_over {start count : UInt32} (h : copyProcessMapping s start count = .ok t)
    (paging : Paging) : ∃ paging', copyProcessMapping (s.withPaging paging) start count = .ok (t.withPaging paging') := by
  unfold copyProcessMapping at h ⊢
  have hcurrent : (s.withPaging paging).current = s.current := rfl
  rw [hcurrent]
  cases hp : s.current with
  | error e =>
    rw [hp] at h
    cases h
  | ok p =>
    rw [hp] at h
    by_cases hc : count.toNat > 1024 * 1024 * 4
    · cases (if_pos hc).symm.trans h
    · obtain rfl := Except.ok.inj ((if_neg hc).symm.trans h)
      exact ⟨_, if_neg hc⟩

theorem suspend_over {p : Nat} {tf : TrapFrame} (h : s.suspend p tf = .ok t) (paging : Paging) :
    (s.withPaging paging).suspend p tf = .ok (t.withPaging paging) := by
  obtain ⟨running, hr, h⟩ := except_bind_ok h
  have hrun : LinkedList.remove (s.withPaging paging).runningQueue p = .ok running := hr
  obtain rfl := Except.ok.inj h
  show Except.bind (LinkedList.remove (s.withPaging paging).runningQueue p) _ = _
  rw [hrun]
  rfl

theorem systemEntry_over {tf tf' : TrapFrame} (h : systemEntry s tf = .ok (t, tf')) (paging : Paging) :
    ∃ paging', systemEntry (s.withPaging paging) tf = .ok (t.withPaging paging', tf') := by
  unfold systemEntry at h ⊢
  split at h
  · obtain ⟨rfl, rfl⟩ := Prod.mk.inj (Except.ok.inj h)
    exact ⟨paging, rfl⟩
  · obtain ⟨rfl, rfl⟩ := Prod.mk.inj (Except.ok.inj h)
    exact ⟨paging, rfl⟩
  · obtain ⟨u, hu, h⟩ := except_bind_ok h
    obtain ⟨paging', hu'⟩ := copyProcessMapping_over hu paging
    obtain ⟨rfl, rfl⟩ := Prod.mk.inj (Except.ok.inj h)
    refine ⟨paging', ?_⟩
    show Except.bind (copyProcessMapping _ _ _) _ = _
    rw [hu']
    rfl
  · obtain ⟨u, hu, h⟩ := except_bind_ok h
    obtain ⟨v, hv, h⟩ := except_bind_ok h
    obtain ⟨paging₁, hu'⟩ := copyProcessMapping_over hu paging
    obtain ⟨paging₂, hv'⟩ := copyProcessMapping_over hv paging₁
    obtain ⟨rfl, rfl⟩ := Prod.mk.inj (Except.ok.inj h)
    refine ⟨paging₂, ?_⟩
    show Except.bind (copyProcessMapping _ _ _) _ = _
    rw [hu']
    show Except.bind (copyProcessMapping _ _ _) _ = _
    rw [hv']
    rfl
  · obtain ⟨u, hu, h⟩ := except_bind_ok h
    obtain ⟨paging', hu'⟩ := copyProcessMapping_over hu paging
    obtain ⟨p, hp, h⟩ := except_bind_ok h
    have hp' : (u.withPaging paging').current = .ok p := hp
    by_cases hc : u.currentControlFlow ≠ .processThread
    · cases (if_pos hc).symm.trans h
    · have h := (if_neg hc).symm.trans h
      obtain ⟨v, hv, h⟩ := except_bind_ok h
      have hv' := suspend_over hv paging'
      obtain ⟨rfl, rfl⟩ := Prod.mk.inj (Except.ok.inj h)
      refine ⟨paging', ?_⟩
      show Except.bind (copyProcessMapping _ _ _) _ = _
      rw [hu']
      show Except.bind (current _) _ = _
      rw [hp']
      refine (if_neg hc).trans ?_
      show Except.bind (suspend _ _ _) _ = _
      rw [hv']
      rfl
  · by_cases hc : s.currentControlFlow ≠ .processThread
    · cases (if_pos hc).symm.trans h
    · have h := (if_neg hc).symm.trans h
      obtain ⟨p, hp, h⟩ := except_bind_ok h
      obtain ⟨v, hv, h⟩ := except_bind_ok h
      have hp' : (s.withPaging paging).current = .ok p := hp
      have hv' := suspend_over hv paging
      obtain ⟨rfl, rfl⟩ := Prod.mk.inj (Except.ok.inj h)
      refine ⟨paging, (if_neg hc).trans ?_⟩
      show Except.bind (current _) _ = _
      rw [hp']
      show Except.bind (suspend _ _ _) _ = _
      rw [hv']
      rfl
  · cases h

/-- a step takes the kernel the same way over any memory -/
theorem Step.withPaging (hs : s.Step a t) (hi : s.Inv) (ha : ∀ image, a ≠ .execv image) (paging : Paging) :
    ∃ paging', (s.withPaging paging).Step a (t.withPaging paging') := by
  have hi' : (s.withPaging paging).Inv := hi.paging paging
  have hen : (s.withPaging paging).Enabled a := by
    cases a <;> exact hs.1
  have htick : (s.withPaging paging).tick = .ok (s.withPaging paging).afterTick := tick_eq hi'.clocks_nodup hi'.clocks_blocked
  by_cases hsys : ∃ x, a = .syscall x
  · obtain ⟨x, rfl⟩ := hsys
    obtain ⟨⟨u, tf⟩, hu, h⟩ := except_bind_ok (trap_syscall.symm.trans hs.2)
    obtain ⟨paging', hu'⟩ := systemEntry_over hu paging
    obtain rfl := Except.ok.inj h
    refine ⟨paging', hen, ?_⟩
    show (s.withPaging paging).trap 32 x = _
    rw [trap_syscall, hu']
    rfl
  · refine ⟨paging, hen, ?_⟩
    cases hs.outcome hi with
    | enqueued image => exact absurd rfl (ha image)
    | idle kernel flags =>
      cases hq : s.readyQueue with
      | nil => exact schedular_nil kernel flags hq
      | cons p ready =>
        have hsame := (schedular_cons kernel flags hq).symm.trans hs.2
        have hq' : (s.withPaging paging).readyQueue = p :: ready := hq
        refine (schedular_cons kernel flags hq').trans ?_
        exact congrArg (fun u => Except.ok (withPaging u paging)) (Except.ok.inj hsame)
    | dispatched kernel flags p ready hq =>
      have hq' : (s.withPaging paging).readyQueue = p :: ready := hq
      exact schedular_cons kernel flags hq'
    | ticked x hm =>
      have hc : (s.withPaging paging).currentControlFlow ≠ .processThread := by
        have hflow : s.currentControlFlow = .kernelThread := (hi.kernel hm).1
        show s.currentControlFlow ≠ _
        rw [hflow]
        decide
      exact timer_kernel x htick hc hi'.no_return
    | preempted x p hr hx =>
      obtain ⟨hc, q, hq, hp⟩ := hi'.user (hen.mp hx)
      obtain rfl : p = q := List.singleton_inj.mp (hr.symm.trans hq)
      have hm : p ∈ (s.withPaging paging).runningQueue := hq ▸ List.mem_singleton_self p
      exact timer_user x htick hc hi'.no_return hp hm
    | typed x r hr _ hg => exact keyboard_typed hr hi'.no_return hg
    | answered x r p hr _ hen hdone hw hb =>
      by_cases hn : r.keyboard.gets.count = 0
      · have hsame := (keyboard_typed hr hi.no_return (.inr hn)).symm.trans hs.2
        refine (keyboard_typed (s := s.withPaging paging) hr hi'.no_return (.inr hn)).trans ?_
        exact congrArg (fun u => Except.ok (Kernel.withPaging u paging)) (Except.ok.inj hsame)
      · exact keyboard_answer hr hi'.no_return hdone hn hw hb
    | served x => exact absurd ⟨x, rfl⟩ hsys
    | gets x => exact absurd ⟨x, rfl⟩ hsys
    | sleep x => exact absurd ⟨x, rfl⟩ hsys

end
end Kernel

namespace Typing

/-! ## the kernel beside the memory -/

/-- the step of the kernel that an event is -/
def Event.action : Event → Option Action
  | .kernel a => some a
  | .store _ _ => none

def actions (es : List Event) : List Action := es.flatMap fun e => e.action.toList

section
variable {f : Frames} {k s : Kernel} {l m : Typing} {e : Event} {p : Nat}

theorem happens_over (hf : f.Ok) (h : Mapped f k l) (htame : l.Tame e) (hs : l.Happens e m)
    (hl : l.kernel = s.withPaging l.kernel.paging) :
    ∃ t, Path Kernel.Step s e.action.toList t ∧ m.kernel = t.withPaging m.kernel.paging := by
  cases e with
  | store address byte =>
    obtain ⟨-, x, -, rfl⟩ := hs
    refine ⟨s, rfl, ?_⟩
    show l.kernel.put x byte = _
    rw [hl]
    rfl
  | kernel a =>
    obtain ⟨t, hst, ht⟩ := kernel_cases hf h htame hs
    obtain ⟨paging, hover⟩ := hst.withPaging h.inv.kernel hs.1 s.paging
    have hsame : l.kernel.withPaging s.paging = s := by
      rw [hl]
      rfl
    rw [hsame] at hover
    refine ⟨t.withPaging paging, ⟨_, hover, rfl⟩, ?_⟩
    rcases ht with ⟨ht, -⟩ | ⟨q, z, y, byte, -, -, -, -, -, -, ht, -⟩ <;> rw [ht] <;> rfl

theorem run_over {es : List Event} (hf : f.Ok) (h : Mapped f k l) (hs : Path Happens l es m)
    (htame : Along Happens Tame l es) (hl : l.kernel = s.withPaging l.kernel.paging) :
    ∃ t, Path Kernel.Step s (actions es) t ∧ m.kernel = t.withPaging m.kernel.paging := by
  induction es generalizing l s with
  | nil =>
    obtain rfl := path_nil.mp hs
    exact ⟨s, rfl, hl⟩
  | cons e es ih =>
    obtain ⟨n, hn, hs⟩ := hs
    obtain ⟨u, hu, hover⟩ := happens_over hf h htame.1 hn hl
    obtain ⟨t, ht, hm⟩ := ih (mapped_step hf h htame.1 hn) hs (htame.2 n hn) hover
    exact ⟨t, path_append.mpr ⟨u, hu, ht⟩, hm⟩

/-! ## the stores of a run -/

/-- the event is a store of `p` -/
def StoredBy (p : Nat) (l : Typing) : Event → Prop
  | .store _ _ => l.kernel.currentProcess = some p
  | .kernel _ => False

/-- nobody but `p` waits -/
def Only (p : Nat) (s : Kernel) : Prop := s.keyboard.gets.enabled = true → s.processWaitingGets = some p

/-- the characters that the kernel stores are those it stores for `p` -/
theorem stores_step (hf : f.Ok) (h : Mapped f k l) (htame : l.Tame e) (hs : l.Happens e m)
    (hown : ¬ StoredBy p l e) (hasks : ∀ a, e.action = some a → a.asks = none) (hp : Only p l.kernel) :
    Only p m.kernel ∧ ∃ us, m.kernel.stores = l.kernel.stores ++ us ∧
      (l.write p e).toList = us.map fun u => (u.address, u.byte) := by
  cases e with
  | store address byte =>
    obtain ⟨-, x, -, rfl⟩ := hs
    have hown : ¬ l.kernel.currentProcess = some p := hown
    refine ⟨hp, [], (List.append_nil _).symm, ?_⟩
    rw [write, if_neg hown]
    rfl
  | kernel a =>
    have ha := hasks a rfl
    obtain ⟨t, hst, ht⟩ := kernel_cases hf h htame hs
    have hcontrol : m.kernel.keyboard = t.keyboard ∧ m.kernel.processWaitingGets = t.processWaitingGets ∧
        m.kernel.stores = t.stores := by
      rcases ht with ⟨ht, -⟩ | ⟨q, z, y, byte, -, -, -, -, -, -, ht, -⟩ <;> rw [ht] <;> exact ⟨rfl, rfl, rfl⟩
    unfold Only
    rw [hcontrol.1, hcontrol.2.1, hcontrol.2.2]
    by_cases hkey : ∃ x, a = .keyboard x
    · obtain ⟨x, rfl⟩ := hkey
      obtain ⟨r, hr, hstores⟩ := hst.stores_keyboard h.inv.kernel
      refine ⟨?_, _, hstores, ?_⟩
      · intro hen
        cases hst.outcome h.inv.kernel with
        | typed _ r' hr' =>
          refine hp ?_
          by_contra hoff
          exact Bool.false_ne_true (((interrupt_gets hr').2.2 (Bool.eq_false_iff.mpr hoff)).symm.trans hen)
        | answered _ r' _ hr' _ _ hdone => exact absurd (hdone.symm.trans hen) Bool.false_ne_true
      · rw [write, hr]
        cases hstore : r.store with
        | none =>
          show (if _ then r.store else none).toList = _
          rw [hstore, ite_self]
          rfl
        | some u =>
          have hw := hp ((interrupt_store hr).2 u.1 u.2 hstore).1
          rw [if_pos hw]
          show r.store.toList = _
          rw [hstore]
          rfl
    · have hkey := not_exists.mp hkey
      obtain ⟨hk, hw, hstores⟩ := hst.request h.inv.kernel hkey ha
      rw [hk, hw, hstores]
      refine ⟨hp, [], (List.append_nil _).symm, ?_⟩
      cases a with
      | keyboard x => exact absurd rfl (hkey x)
      | _ => rfl

theorem written_append (memory : UInt32 → UInt8) (ws ws' : List (UInt32 × UInt8)) :
    written memory (ws ++ ws') = written (written memory ws) ws' := List.foldl_append

/-- the array of `p` takes what the kernel stores -/
theorem stores_run {es : List Event} {w w' : Flat} (hf : f.Ok) (h : Mapped f k w.typing) (hs : Path (Flat.Step p) w es w')
    (hown : Along Happens (fun l e => l.Tame e ∧ ¬ StoredBy p l e) w.typing es)
    (hasks : ∀ a ∈ actions es, a.asks = none) (hp : Only p w.typing.kernel) :
    ∃ us, w'.typing.kernel.stores = w.typing.kernel.stores ++ us ∧
      w'.memory = written w.memory (us.map fun u => (u.address, u.byte)) := by
  induction es generalizing w with
  | nil =>
    obtain rfl := path_nil.mp hs
    exact ⟨[], (List.append_nil _).symm, rfl⟩
  | cons e es ih =>
    obtain ⟨u, ⟨hu, hmemory⟩, hs⟩ := hs
    have hasks₁ : ∀ a, e.action = some a → a.asks = none := fun a ha =>
      hasks a (List.mem_append_left _ (Option.mem_toList.mpr ha))
    obtain ⟨hp', us, hstores, hwrite⟩ := stores_step hf h hown.1.1 hu hown.1.2 hasks₁ hp
    obtain ⟨us', hstores', hmemory'⟩ := ih (mapped_step hf h hown.1.1 hu) hs (hown.2 _ hu)
      (fun a ha => hasks a (List.mem_append_right _ ha)) hp'
    refine ⟨us ++ us', ?_, ?_⟩
    · rw [hstores', hstores, List.append_assoc]
    · rw [hmemory', hmemory, hwrite, List.map_append, written_append]

/-! ## the call -/

theorem tame_syscall (l : Typing) (x : Trap) : l.Tame (.kernel (.syscall x)) :=
  fits_of_not_keyboard fun _ h => by cases h

/-- a call of `gets`, as the kernel alone makes it -/
theorem call_exists {b : BootState} {past : List Action} {x : Trap} (hf : f.Ok) (h : Mapped f k l)
    (hl : l.kernel = s.withPaging l.kernel.paging) (hpast : Path Kernel.Step (Kernel.boot b) past s)
    (hp : l.kernel.currentProcess = some p) (hx : x.regs.eax = 4) (hcall : l.Happens (.kernel (.syscall x)) m) :
    ∃ c : GetsCall, c.past = past ∧ c.process = p ∧ c.trap = x ∧ c.kernel = s ∧
      m.kernel = c.blocked.withPaging m.kernel.paging := by
  obtain ⟨t, ⟨u, hu, ht⟩, hover⟩ := happens_over hf h (tame_syscall l x) hcall hl
  obtain rfl := path_nil.mp ht
  obtain ⟨-, q, hq, hcurrent⟩ := (Kernel.inv_run hpast).user hu.1.2
  have hsame : s.currentProcess = l.kernel.currentProcess := by rw [hl]; rfl
  obtain rfl := Option.some.inj (hcurrent.symm.trans (hsame.trans hp))
  exact ⟨⟨b, past, s, hpast, q, hq, x, hx, u, hu⟩, rfl, rfl, rfl, rfl, hover⟩

/-- while only `p` waits, it finds what the kernel stores -/
theorem found_run {es : List Event} (hf : f.Ok) (halias : f.NoAlias) (h : Mapped f k l) (hp : p < l.kernel.created)
    (hd : l.kernel.directory p ∈ f.directories) (hs : Path Happens l es m)
    (hown : Along Happens (fun l e => l.Tame e ∧ ¬ StoredBy p l e) l es) (hasks : ∀ a ∈ actions es, a.asks = none)
    (honly : Only p l.kernel) :
    ∃ us, m.kernel.stores = l.kernel.stores ++ us ∧ ∀ a, l.kernel.Private p a →
      m.kernel.processByte p a = written (l.kernel.processByte p) (us.map fun u => (u.address, u.byte)) a := by
  obtain ⟨memory, hflat⟩ := flat_exists p hs (l.kernel.processByte p)
  have hfound := flat_run (w := ⟨l, l.kernel.processByte p⟩) hf halias h hp hd hflat (hown.imp fun _ _ h => h.1)
    fun a _ => Eq.refl (l.kernel.processByte p a)
  obtain ⟨us, hus, hmemory⟩ := stores_run (w := ⟨l, l.kernel.processByte p⟩) hf h hflat hown hasks honly
  refine ⟨us, hus, fun a ha => (hfound a ha).trans ?_⟩
  exact congrFun hmemory a

end

/-- the characters that `as` types after `past` -/
def typedAfter (past as : List Action) : List UInt8 := (chars (past ++ as)).drop (chars past).length

theorem typed_call (c : GetsCall) (as : List Action) : c.typed as = typedAfter c.past (.syscall c.trap :: as) := by
  rw [GetsCall.typed, GetsCall.whole, List.append_assoc]
  rfl

/-- the stores of the kernel since the call are the characters typed since -/
theorem placed_of_progress {c : GetsCall} {as : List Action} {s : Kernel} {us : List UserStore}
    (h : c.Progress as s) (hus : s.stores = c.blocked.stores ++ us) :
    us.map (fun u => (u.address, u.byte)) = placed c.buffer ((c.typed as).take c.count) := by
  have hcall : c.blocked.stores = c.kernel.stores :=
    c.call.stores_other (Kernel.inv_run c.reached) fun _ h => by cases h
  have hstores := h.stored
  rw [GetsCall.stores, hus, hcall, List.drop_left] at hstores
  exact hstores

/-- A process that runs calls `gets` for at least one character.  In every run that follows, with stores outside
`Kernel_maps`, with typed characters that find the process that asked, and until the process itself stores or anybody
calls `gets` again: the process finds in its memory the characters typed since, up to the number it asked for, in
order, from its buffer on, and everything else as it was.  It waits exactly while characters are missing. -/
theorem gets_received (mem : Mem) (files : List File) (hfiles : ∀ f ∈ files, StarOS.Accepted f) (s : Loader)
    (hs : Loader.run files (Loader.boot mem) = .ok ⟨⟩ s) (b : BootState) (past : List Action) (k : Kernel)
    (hpast : Path Kernel.Step (Kernel.boot b) past k) (hk : Started s k) (es es' : List Event) (l l' m : Typing)
    (hl : Path Happens (start k) es l) (htame : Along Happens Tame (start k) es) (p : Nat)
    (hp : l.kernel.currentProcess = some p) (x : Trap) (hx : x.regs.eax = 4) (hcount : x.regs.ecx ≠ 0)
    (hcall : l.Happens (.kernel (.syscall x)) l') (hm : Path Happens l' es' m)
    (htame' : Along Happens (fun l e => l.Tame e ∧ ¬ StoredBy p l e) l' es')
    (hasks : ∀ a ∈ actions es', a.asks = none) (typed : List UInt8)
    (htyped : typed = typedAfter (past ++ actions es) (.syscall x :: actions es')) :
    (∀ a, l.kernel.Private p a → m.kernel.processByte p a
      = written (l.kernel.processByte p) (placed x.regs.ebx (typed.take x.regs.ecx.toNat)) a) ∧
    (∀ i < typed.length, i < x.regs.ecx.toNat → l.kernel.Private p (x.regs.ebx + UInt32.ofNat i) →
      typed[i]? = some (m.kernel.processByte p (x.regs.ebx + UInt32.ofNat i))) ∧
    (typed.length < x.regs.ecx.toNat → p ∈ m.kernel.blockingQueue) ∧
    (x.regs.ecx.toNat ≤ typed.length → m.kernel.keyboard.gets.enabled = false) := by
  obtain ⟨f, hshape, -, halias⟩ := run_noAlias mem hfiles hs
  have hf := hshape.ok
  have hstart := mapped_start hshape hk
  have h := mapped_run hf hstart hl htame
  have h' := mapped_step hf h (tame_syscall l x) hcall
  -- the same run of the kernel alone
  obtain ⟨s₁, hs₁, hover⟩ := run_over (s := k) hf hstart hl htame rfl
  obtain ⟨c, hcpast, rfl, rfl, rfl, hblocked⟩ := call_exists hf h hover (path_append.mpr ⟨k, hpast, hs₁⟩) hp hx hcall
  obtain ⟨s₂, hs₂, hover'⟩ := run_over hf h' hm (htame'.imp fun _ _ h => h.1) hblocked
  have hprogress := GetsCall.progress_run (fun e => hcount (UInt32.toNat_inj.mp e)) ⟨hasks, hs₂⟩
  rw [← hcpast, ← typed_call] at htyped
  subst htyped
  have hwaiting : l'.kernel.processWaitingGets = some c.process := by
    obtain ⟨paging, hb⟩ := c.call.gets (Kernel.inv_run c.reached) c.running c.asks
    rw [hblocked, hb]
    rfl
  -- what the process finds
  have hlt := h.current _ hp
  have hlt' : c.process < l'.kernel.created := by
    rw [h'.created, ← h.created]
    exact hlt
  obtain ⟨us, hus, hfound⟩ := found_run hf halias h' hlt' (directory_mem hshape hk h' hlt') hm htame' hasks
    fun _ => hwaiting
  have hstores : s₂.stores = c.blocked.stores ++ us := by
    have hm : m.kernel.stores = s₂.stores := by
      rw [hover']
      rfl
    have hl : l'.kernel.stores = c.blocked.stores := by
      rw [hblocked]
      rfl
    rw [← hm, hus, hl]
  have hbytes : ∀ a, l.kernel.Private c.process a → m.kernel.processByte c.process a
      = written (l.kernel.processByte c.process) (placed c.buffer ((c.typed (actions es')).take c.count)) a := by
    intro a ha
    have hno : ¬ l.Writes c.process (.kernel (.syscall c.trap)) := not_writes fun _ h => by cases h
    rw [hfound a (private_kept hf h h' hlt ha), placed_of_progress hprogress hstores]
    exact written_congr (kept_step hf h (tame_syscall l c.trap) hcall hno hlt ha) _
  refine ⟨hbytes, fun i hi hic ha => ?_, fun hlt => ?_, fun hge => ?_⟩
  · have hlen : ((c.typed (actions es')).take c.count).length ≤ 2^32 := by
      have := c.trap.regs.ecx.toNat_lt
      rw [List.length_take]
      exact Nat.le_of_lt (Nat.lt_of_le_of_lt (Nat.min_le_left _ _) this)
    have hi' : i < ((c.typed (actions es')).take c.count).length := by
      rw [List.length_take]
      exact Nat.lt_min.mpr ⟨hic, hi⟩
    rw [hbytes _ ha]
    refine Eq.trans ?_ (written_placed _ c.buffer hlen hi')
    exact (List.getElem?_take_of_lt hic).symm
  · have hwaits := (hprogress.state.resolve_right fun hge => Nat.not_le_of_lt hlt hge.1).2
    rw [hover']
    exact hwaits.blocked
  · have hcleared := (hprogress.state.resolve_left fun hlt => Nat.not_le_of_lt hlt.1 hge).2
    rw [hover']
    show s₂.keyboard.gets.enabled = false
    rw [hcleared.gets]

/-! ## two characters -/

/-- a key press that is accepted while more characters are missing -/
theorem step_more {f : Frames} {l : Typing} {x : Trap} {r : Response} {address : UInt32} {byte : UInt8} (hf : f.Ok)
    (hi : l.Inv f) (hfits : l.Fits (.keyboard x)) (hen : l.kernel.Enabled (.keyboard x))
    (hr : ps2KeyboardInterrupt l.kernel.keyboard x.data = .ok r) (hstore : r.store = some (address, byte))
    (hmore : r.keyboard.gets.enabled = true) : ∃ z, l.Step (.keyboard x)
      ⟨(l.kernel.typed r x).put z byte, l.record (.keyboard x) (l.kernel.typed r x), l.copied (.keyboard x)⟩ := by
  have hs : l.kernel.Step (.keyboard x) (l.kernel.typed r x) :=
    ⟨hen, Kernel.keyboard_typed hr hi.kernel.no_return (.inl hmore)⟩
  have ha : ∀ image, Action.keyboard x ≠ .execv image := fun _ h => by cases h
  have hacc : l.Accepts (.keyboard x) byte := ⟨x, r, address, rfl, hen, hr, hstore⟩
  rcases step_cases hf hi hfits hs ha with ⟨-, hno⟩ | ⟨_, _, _, z, byte', -, -, -, -, -, -, -, -, hd, hbyte⟩
  · exact absurd hacc (hno byte)
  · obtain rfl := hbyte byte hacc
    exact ⟨z, ha, _, hs, hd, rfl, rfl⟩

/-- the keyboard when two characters are asked for, and when the first one is typed -/
def twoKeyboard : Keyboard := { Keyboard.boot with gets := ⟨true, 2, 0, 0x0feff000⟩ }

theorem two_typed : ∃ r r' : Response, ps2KeyboardInterrupt twoKeyboard 0x1e = .ok r ∧
    r.store = some (0x0feff000, 0x61) ∧ r.keyboard.gets.enabled = true ∧
    ps2KeyboardInterrupt r.keyboard 0x30 = .ok r' ∧ r'.store = some (0x0feff001, 0x62) := by
  have hfirst : (ps2KeyboardInterrupt twoKeyboard 0x1e).toOption.map
      (fun r => (r.store, r.keyboard.gets.enabled)) = some (some (0x0feff000, 0x61), true) := by decide +kernel
  have hsecond : (ps2KeyboardInterrupt twoKeyboard 0x1e).toOption.bind
      (fun r => (ps2KeyboardInterrupt r.keyboard 0x30).toOption.map Response.store)
      = some (some (0x0feff001, 0x62)) := by decide +kernel
  cases hr : ps2KeyboardInterrupt twoKeyboard 0x1e with
  | error e =>
    rw [hr] at hfirst
    cases hfirst
  | ok r =>
    rw [hr] at hfirst hsecond
    obtain ⟨hstore, hmore⟩ := Prod.mk.inj (Option.some.inj hfirst)
    have hsecond : (ps2KeyboardInterrupt r.keyboard 0x30).toOption.map Response.store
      = some (some (0x0feff001, 0x62)) := hsecond
    cases hr' : ps2KeyboardInterrupt r.keyboard 0x30 with
    | error e =>
      rw [hr'] at hsecond
      cases hsecond
    | ok r' =>
      rw [hr'] at hsecond
      exact ⟨r, r', rfl, hstore, hmore, hr', Option.some.inj hsecond⟩

/-- the process that runs asks for two characters -/
def asksTwo (s : Loader) (d d' : Nat) : Typing := (firstRuns s d d').next (Ledger.getsCall 0x0feff000 2)

theorem happens_asksTwo (s : Loader) (d d' : Nat) :
    (firstRuns s d d').Happens (.kernel (Ledger.getsCall 0x0feff000 2)) (asksTwo s d d') := by
  have hring3 : Kernel.ring3.user := by decide
  exact step_next (fun _ h => by cases h) ⟨hring3, Kernel.selector_user 4⟩ rfl rfl

/-- nobody else has asked -/
theorem asksTwo_none (s : Loader) (d d' : Nat) {p : Nat} (hp : p ≠ 0) : (asksTwo s d d').asked p = none := by
  have hnot : p ∉ [0] := fun h => hp (List.mem_singleton.mp h)
  exact (if_neg fun h => hnot h.2).trans (if_neg hnot)

/-- what the scheduler finds while the process waits, after `n` characters -/
structure AskedTwo (d : Nat) (n : Nat) (l : Typing) : Prop where
  scheduler : ¬ l.kernel.UserMode
  registered : l.kernel.processWaitingGets = some 0
  blocked : l.kernel.blockingQueue = [0]
  loaded : l.kernel.cr3 = l.kernel.kernelPagingDirectory
  directory : l.kernel.directory 0 = d
  created : 0 < l.kernel.created
  copied : l.copier (dirIndex 0x0feff000) = some 0
  asked : l.asked 0 = some ⟨0x0feff000, n⟩
  alone : ∀ p, p ≠ 0 → l.asked p = none

theorem asksTwo_asked (s : Loader) (d d' : Nat) : AskedTwo d 0 (asksTwo s d d') := by
  have hring0 : ¬ Kernel.ring0.user := by decide
  exact ⟨hring0, rfl, rfl, rfl, rfl, Nat.two_pos, rfl, rfl, fun _ hp => asksTwo_none s d d' hp⟩

/-- a key press finds the process ready for it -/
theorem AskedTwo.fits {f : Frames} {d n : Nat} {l : Typing} (h : AskedTwo d n l) (hf : f.Ok) (hi : l.Inv f)
    (hc : Frames.Complete d f) (hn : n < 2) (x : Trap) : l.Fits (.keyboard x) := by
  intro byte _ p r hasked
  by_cases hp : p = 0
  · subst hp
    obtain rfl := Option.some.inj (hasked.symm.trans h.asked)
    have hnext : (Asked.next ⟨0x0feff000, n⟩).toNat / 4096 = 0xfeff ∧
        dirIndex (Asked.next ⟨0x0feff000, n⟩).toNat = dirIndex 0x0feff000 := by
      obtain rfl | rfl : n = 0 ∨ n = 1 := by omega
      · decide
      · decide
    refine ⟨h.registered, h.loaded, ?_, ?_, ?_⟩
    · rw [hnext.2]
      exact h.copied
    · rw [hnext.1, kernelPage_iff]
      omega
    · refine stack_mapped hf hi h.created ?_ hnext.1
      rw [h.directory]
      exact hc
  · cases (h.alone p hp).symm.trans hasked

theorem AskedTwo.enabled {d n : Nat} {l : Typing} (h : AskedTwo d n l) (data : UInt8) :
    l.kernel.Enabled (keyPress Kernel.ring0 data) := by
  have hring0 : ¬ Kernel.ring0.user := by decide
  exact iff_of_false hring0 h.scheduler

/-- the first character is stored and counted -/
theorem AskedTwo.press {d : Nat} {l : Typing} (h : AskedTwo d 0 l) {r : Response} {b : UInt32 × UInt8}
    (hstore : r.store = some b) (z : Nat) (byte : UInt8) (x : Trap) (hx : x = Kernel.trapOf Kernel.ring0 0x1e) :
    AskedTwo d 1 ⟨(l.kernel.typed r x).put z byte, l.record (.keyboard x) (l.kernel.typed r x), l.copied (.keyboard x)⟩ := by
  have hrecord : ∀ p, l.record (.keyboard x) (l.kernel.typed r x) p = if p ∈ l.kernel.blockingQueue then
      (l.asked p).map fun q => { q with typed := q.typed + ((l.kernel.typed r x).stores.length - l.kernel.stores.length) }
      else none := fun p => if_neg fun h => Bool.false_ne_true h.1
  have hcount : (l.kernel.typed r x).stores.length - l.kernel.stores.length = 1 := by
    show (l.kernel.stores ++ _).length - _ = 1
    rw [hstore, List.length_append, Nat.add_sub_cancel_left]
    rfl
  refine ⟨?_, h.registered, h.blocked, h.loaded, h.directory, h.created, h.copied, ?_, fun p hp => ?_⟩
  · subst hx
    have hring0 : ¬ (trapret ((Kernel.trapOf Kernel.ring0 0x1e).frame 0x31)).user := by decide
    exact hring0
  · refine (hrecord 0).trans ?_
    rw [h.blocked, if_pos (List.mem_singleton_self 0), h.asked, hcount]
    rfl
  · refine (hrecord p).trans ?_
    rw [h.alone p hp]
    exact ite_self none

/-- two characters are asked for and typed -/
theorem gets_received_ab : ∃ s d d' m,
    Loader.run (List.replicate 2 smallProgram) (Loader.boot fun _ => 0) = .ok ⟨⟩ s ∧
      Path Happens (start (twoReady s d d')) [.kernel (.dispatch Kernel.ring0 0x202),
        .kernel (Ledger.getsCall 0x0feff000 2), .kernel (keyPress Kernel.ring0 0x1e),
        .kernel (keyPress Kernel.ring0 0x30)] m ∧
      m.kernel.processByte 0 0x0feff000 = 0x61 ∧ m.kernel.processByte 0 0x0feff001 = 0x62 := by
  obtain ⟨s, hs⟩ := smallPrograms_complete (n := 2) (by decide)
  obtain ⟨f, d, d', hshape, hd, hc, -⟩ := two_directories hs
  have hf := hshape.ok
  have hk := started_two hd
  have hfirst := happens_firstRuns s d d'
  have hcall := happens_asksTwo s d d'
  have h := mapped_firstRuns hshape hd
  have h' := mapped_step hf h (tame_syscall _ _) hcall
  obtain ⟨r, r', hr, hstore, hmore, hr', hstore'⟩ := two_typed
  -- the first key
  have hasked := asksTwo_asked s d d'
  have hfits := hasked.fits hf h'.inv hc (by decide) (Kernel.trapOf Kernel.ring0 0x1e)
  obtain ⟨z, hkey⟩ := step_more hf h'.inv hfits (hasked.enabled 0x1e) hr hstore hmore
  -- the second key
  have hpressed := hasked.press hstore z 0x61 _ rfl
  have hinv := inv_step hf h'.inv hfits hkey
  have hfits' := hpressed.fits hf hinv hc (by decide) (Kernel.trapOf Kernel.ring0 0x30)
  obtain ⟨m, hkey', -⟩ := delivers_of_fits hf hinv hfits' 0x62
    ⟨_, r', 0x0feff001, rfl, hpressed.enabled 0x30, hr', hstore'⟩ 0 _ hpressed.asked
  have hkeys : Path Happens (asksTwo s d d') [.kernel (keyPress Kernel.ring0 0x1e),
      .kernel (keyPress Kernel.ring0 0x30)] m := ⟨_, hkey, _, hkey', rfl⟩
  refine ⟨s, d, d', m, hs, ⟨_, hfirst, _, hcall, hkeys⟩, ?_⟩
  have hpast : Path Kernel.Step (Kernel.boot { Kernel.smallMachine with
      paging := s.paging, kernelPagingDirectory := s.kernelPagingDirectory })
      [.execv ⟨0x59005070, d, 0x08048054, s.paging⟩, .execv ⟨0x590050d0, d', 0x08048054, s.paging⟩] (twoReady s d d') :=
    ⟨_, Kernel.step_next trivial rfl, _, Kernel.step_next trivial rfl, rfl⟩
  have hasks : ∀ a ∈ actions [.kernel (keyPress Kernel.ring0 0x1e), .kernel (keyPress Kernel.ring0 0x30)],
      a.asks = none := by
    intro a ha
    obtain rfl | ha := List.mem_cons.mp ha
    · rfl
    · rw [List.mem_singleton.mp ha]
      rfl
  -- the bytes of the run are those of the two keys
  have htyped : [0x61, 0x62] = typedAfter ([.execv ⟨0x59005070, d, 0x08048054, s.paging⟩,
      .execv ⟨0x590050d0, d', 0x08048054, s.paging⟩] ++ actions [.kernel (.dispatch Kernel.ring0 0x202)])
      (Ledger.getsCall 0x0feff000 2 :: actions [.kernel (keyPress Kernel.ring0 0x1e),
        .kernel (keyPress Kernel.ring0 0x30)]) := by
    have hkeys : [0x61, 0x62] = typedAfter [] [keyPress Kernel.ring0 0x1e, keyPress Kernel.ring0 0x30] := by
      decide +kernel
    exact hkeys
  have htame : Along Happens (fun l e => l.Tame e ∧ ¬ StoredBy 0 l e) (asksTwo s d d')
      [.kernel (keyPress Kernel.ring0 0x1e), .kernel (keyPress Kernel.ring0 0x30)] := by
    refine ⟨⟨hfits, fun h => h⟩, fun n hn => ?_⟩
    obtain rfl := hn.unique hkey
    exact ⟨⟨hfits', fun h => h⟩, fun _ _ => trivial⟩
  have hprivate : ∀ a : UInt32, a.toNat / 4096 = 0xfeff → (firstRuns s d d').kernel.Private 0 a := fun a ha => by
    refine ⟨stack_mapped hf h.inv Nat.two_pos hc ha, ?_⟩
    rw [ha, kernelPage_iff]
    decide
  have hfound := (gets_received (fun _ => 0) _ (accepted_replicate smallProgram_accepted 2) s hs _ _ _ hpast hk
    [.kernel (.dispatch Kernel.ring0 0x202)] [.kernel (keyPress Kernel.ring0 0x1e), .kernel (keyPress Kernel.ring0 0x30)]
    _ _ m ⟨_, hfirst, rfl⟩ ⟨tame_dispatch _ _ _, fun _ _ => trivial⟩ 0 rfl _ rfl (by decide) hcall hkeys htame hasks
    [0x61, 0x62] htyped).2.1
  exact ⟨(Option.some.inj (hfound 0 (by decide) (by decide) (hprivate _ rfl))).symm,
    (Option.some.inj (hfound 1 (by decide) (by decide) (hprivate _ rfl))).symm⟩

end Typing
end StarOS
