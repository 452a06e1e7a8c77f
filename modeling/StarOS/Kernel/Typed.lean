import StarOS.Exec.Isolation
import StarOS.Kernel.Gets

/-!
# Where typed characters go (`response_scancode`, `copy_process_mapping`, `system_entry`)

A character typed for `gets` is stored at the pointer of the process that asked, under the page
directory that is loaded when the key is pressed.  The memory starts as the loader leaves it.

* `Kernel.deliver`     such a store, with the page fault it may cause;
* `Typing`             the kernel, the requests that are not answered and, for each slot of the kernel's
                       directory, the process whose page table is there;
* `Tables`             the process directories are as they were loaded, and the slots of the kernel's
                       directory are those of the processes that copied them;
* `typed_where_asked`  as long as every key press finds the kernel's directory loaded and the page table
                       of the process that asked in it, the characters go where they belong.
-/

namespace StarOS
open Lib Frames

/-! ## the step -/

namespace Kernel

/-- the page directory of a process -/
def directory (s : Kernel) (p : Nat) : Nat := (s.procs p).context.pageDirectory

def put (s : Kernel) (x : Nat) (byte : UInt8) : Kernel :=
  { s with paging := { s.paging with mem := writeByte s.paging.mem x byte } }

/-- a store through `gets_buffer`.  Where the page is missing the handler of page faults maps it in the
kernel's directory, and the store is tried again. -/
def deliver (s : Kernel) (u : UserStore) : Except Fatal Kernel :=
  match checkAddressMapping s.paging u.address.toNat u.cr3 with
  | some x => .ok (s.put x u.byte)
  | none => do
    let s ← pageFault s u.address
    match checkAddressMapping s.paging u.address.toNat u.cr3 with
    | some x => .ok (s.put x u.byte)
    | none => .error .endlessPageFault

theorem deliver_ok {s : Kernel} {u : UserStore} {x : Nat}
    (h : checkAddressMapping s.paging u.address.toNat u.cr3 = some x) :
    s.deliver u = .ok (s.put x u.byte) := by
  rw [deliver, h]

end Kernel

/-- the pointers a step hands to `copy_process_mapping` -/
def Action.copies : Action → List UInt32
  | .syscall t => Kernel.copiedPointers t.regs.eax t.regs.ebx t.regs.edx
  | _ => []

/-- a `gets` that is not answered, and how many characters were typed since -/
structure Asked where
  buffer : UInt32
  typed : Nat

/-- where the next character belongs -/
def Asked.next (r : Asked) : UInt32 := r.buffer + UInt32.ofNat r.typed

structure Typing where
  kernel : Kernel
  asked : Nat → Option Asked
  /-- the process whose page table was copied into a slot of the kernel's directory -/
  copier : Nat → Option Nat

namespace Typing

def start (s : Kernel) : Typing := ⟨s, fun _ => none, fun _ => none⟩

/-- a call of `gets` starts counting, a character that is stored counts, and a process that is no longer
blocked waits for none -/
def record (l : Typing) (a : Action) (t : Kernel) (p : Nat) : Option Asked :=
  if a.asks.isSome ∧ p ∈ l.kernel.runningQueue then a.asks.map fun request => ⟨request.1, 0⟩
  else if p ∈ t.blockingQueue then
    (l.asked p).map fun r => { r with typed := r.typed + (t.stores.length - l.kernel.stores.length) }
  else none

def copied (l : Typing) (a : Action) : Nat → Option Nat :=
  a.copies.foldl (fun c start => Function.update c (dirIndex start.toNat) l.kernel.currentProcess)
    l.copier

/-- a step of the kernel, and the store it makes; no process is created once the scheduler runs -/
def Step (l : Typing) (a : Action) (m : Typing) : Prop :=
  (∀ image, a ≠ .execv image) ∧ ∃ t, l.kernel.Step a t ∧
    (t.stores.drop l.kernel.stores.length).foldlM Kernel.deliver t = .ok m.kernel ∧
    m.asked = l.record a t ∧ m.copier = l.copied a

/-! ## the property and its condition -/

/-- the physical byte that the page directory of `p` assigns to an address -/
def byteOf (l : Typing) (p : Nat) (address : UInt32) : Option Nat :=
  checkAddressMapping l.kernel.paging address.toNat (l.kernel.directory p)

/-- `x` is a byte of the own memory of `q`, mapped outside `Kernel_maps` -/
def Owns (l : Typing) (q x : Nat) : Prop :=
  ∃ address : UInt32, ¬ KernelPage (address.toNat / 4096) ∧ l.byteOf q address = some x

/-- the interrupt is a key press that is accepted for `gets`, of the character `byte` -/
def Accepts (l : Typing) (a : Action) (byte : UInt8) : Prop :=
  ∃ t r address, a = .keyboard t ∧ l.kernel.Enabled a ∧
    ps2KeyboardInterrupt l.kernel.keyboard t.data = .ok r ∧ r.store = some (address, byte)

/-- a key press that is accepted stores the character for every process that asked, and no byte of any
other process changes -/
def Delivers (l : Typing) (a : Action) : Prop :=
  ∀ byte, l.Accepts a byte → ∀ p r, l.asked p = some r → ∃ m, l.Step a m ∧
    (∃ x, l.byteOf p r.next = some x ∧ m.kernel.paging.mem x = byte) ∧
    ∀ q < l.kernel.created, q ≠ p → ∀ x, l.Owns q x → m.kernel.paging.mem x = l.kernel.paging.mem x

/-- the next character for `p` will be stored through the page table of `p` -/
structure Ready (l : Typing) (p : Nat) (r : Asked) : Prop where
  /-- no other process has called `gets` since -/
  registered : l.kernel.processWaitingGets = some p
  /-- the kernel's directory is loaded: no process runs -/
  kernel : l.kernel.cr3 = l.kernel.kernelPagingDirectory
  /-- no other process has had this slot copied since -/
  copied : l.copier (dirIndex r.next.toNat) = some p
  own : ¬ KernelPage (r.next.toNat / 4096)
  mapped : (l.byteOf p r.next).isSome

/-- a key press that is accepted finds every process that asked ready for it -/
def Fits (l : Typing) (a : Action) : Prop :=
  ∀ byte, l.Accepts a byte → ∀ p r, l.asked p = some r → l.Ready p r

end Typing

/-- the kernel when the loader is done and the scheduler starts -/
structure Started (s : Loader) (k : Kernel) : Prop where
  reached : ∃ b as, Path Kernel.Step (Kernel.boot b) as k
  paging : k.paging = s.paging
  kernelPagingDirectory : k.kernelPagingDirectory = s.kernelPagingDirectory
  directories : (List.range k.created).map k.directory = s.directories
  noRequest : k.keyboard.gets.enabled = false

namespace Kernel
section
variable {s t : Kernel} {a : Action}

/-- once the scheduler runs, the processes and their directories stay -/
theorem Step.directory (hs : s.Step a t) (hi : s.Inv) (ha : ∀ image, a ≠ .execv image) :
    t.created = s.created ∧ t.kernelPagingDirectory = s.kernelPagingDirectory ∧
      ∀ p, t.directory p = s.directory p := by
  have hoff : ∀ (u : Kernel) p tf status q,
      (((u.offCpu p tf).setStatus p status).procs q).context.pageDirectory = u.directory q := by
    intro u p tf status q
    rw [offCpu_procs]
    split <;> rfl
  have htick : ∀ q, s.afterTick.directory q = s.directory q := fun q =>
    congrArg Context.pageDirectory (wakeAll_context s _ q)
  cases hs.outcome hi with
  | enqueued image => exact absurd rfl (ha image)
  | idle => exact ⟨rfl, rfl, fun _ => rfl⟩
  | dispatched kernel flags p =>
    refine ⟨rfl, rfl, fun q => ?_⟩
    show (if q = p then { s.procs q with status := .running } else s.procs q).context.pageDirectory = _
    split <;> rfl
  | ticked => exact ⟨rfl, rfl, htick⟩
  | preempted x p => exact ⟨rfl, rfl, fun q => (hoff s.afterTick p _ _ q).trans (htick q)⟩
  | typed => exact ⟨rfl, rfl, fun _ => rfl⟩
  | answered x r p =>
    refine ⟨rfl, rfl, fun q => ?_⟩
    refine (congrArg Context.pageDirectory (wakeAll_context _ [p] q)).trans ?_
    show (if q = p then _ else s.procs q).context.pageDirectory = _
    split <;> rfl
  | served => exact ⟨rfl, rfl, fun _ => rfl⟩
  | gets x p paging => exact ⟨rfl, rfl, hoff { s with paging := paging } p _ _⟩
  | sleep x p => exact ⟨rfl, rfl, hoff s p _ _⟩

theorem Step.paging_keyboard {x : Trap} (hs : s.Step (.keyboard x) t) (hi : s.Inv) :
    t.paging = s.paging := by
  cases hs.outcome hi <;> rfl

/-- the page tables change in a system call only, and only by what it copies -/
theorem Step.paging (hs : s.Step a t) (hi : s.Inv) (ha : ∀ image, a ≠ .execv image) :
    (a.copies = [] ∧ t.paging = s.paging) ∨
      ∃ p, s.currentProcess = some p ∧ p < s.created ∧ t.paging = a.copies.foldl
        (copyEntry s.kernelPagingDirectory (s.directory p)) s.paging := by
  cases a with
  | execv image => exact absurd rfl (ha image)
  | dispatch kernel flags =>
    refine .inl ⟨rfl, ?_⟩
    cases hs.outcome hi <;> rfl
  | timer x =>
    refine .inl ⟨rfl, ?_⟩
    cases hs.outcome hi <;> rfl
  | keyboard x => exact .inl ⟨rfl, hs.paging_keyboard hi⟩
  | syscall x =>
    right
    obtain ⟨hc, p, hr, hp⟩ := hi.user hs.1.2
    have hm : p ∈ s.runningQueue := hr ▸ List.mem_singleton_self p
    refine ⟨p, hp, (hi.placed.mem_iff p).mpr (.inr (.inl hm)), ?_⟩
    have hok : s.trap 32 x = .ok t := hs.2
    by_cases h4 : x.regs.eax = 4
    · rcases gets_eq hc hp hm h4 with h | h
      · rw [← Except.ok.inj (h.symm.trans hok)]
        rfl
      · cases h.symm.trans hok
    · by_cases h5 : x.regs.eax = 5
      · rw [← Except.ok.inj ((sleep_eq hc hp hm h5).symm.trans hok)]
        show s.paging = (copiedPointers x.regs.eax _ _).foldl _ _
        rw [h5]
        rfl
      · rcases syscall_other hp h4 h5 with ⟨eax, h⟩ | ⟨n, h⟩ | h
        · rw [← Except.ok.inj (h.symm.trans hok)]
          rfl
        · cases h.symm.trans hok
        · cases h.symm.trans hok

end
end Kernel

/-! ## the page tables -/

/-- the process directories are as the frames `f` say, and the slots of the kernel's directory hold
the tables of the processes that copied them -/
structure Tables (f : Frames) (s : Kernel) (paging : Paging) (copier : Nat → Option Nat) : Prop where
  kernel : s.kernelPagingDirectory = kernelDirectory
  process : ∀ p < s.created, f.At (s.directory p) .directory ∧ s.directory p ≠ kernelDirectory
  apart : ∀ p < s.created, ∀ q < s.created, p ≠ q → s.directory p ≠ s.directory q
  holds : ∀ p < s.created, Holds f paging (s.directory p)
  copied : ∀ j p, copier j = some p → j < 1024 ∧ p < s.created ∧
    paging.entry kernelDirectory j = paging.entry (s.directory p) j

section
variable {f : Frames} {s t : Kernel} {paging : Paging} {c : Nat → Option Nat} {p : Nat}

/-- the same processes with the same directories -/
theorem Tables.congr (h : Tables f s paging c) (hn : t.created = s.created)
    (hk : t.kernelPagingDirectory = s.kernelPagingDirectory)
    (hd : ∀ p, t.directory p = s.directory p) : Tables f t paging c := by
  refine ⟨hk.trans h.kernel, ?_, ?_, ?_, ?_⟩ <;> simp only [hn, hd]
  · exact h.process
  · exact h.apart
  · exact h.holds
  · exact h.copied

/-- copying one entry of the directory of `p` -/
theorem Tables.copy (hf : f.Ok) (h : Tables f s paging c) (hp : p < s.created) (start : UInt32) :
    Tables f s (Kernel.copyEntry s.kernelPagingDirectory (s.directory p) paging start)
      (Function.update c (dirIndex start.toNat) (some p)) := by
  have hj : dirIndex start.toNat < 1024 := dirIndex_lt start.toNat_lt
  rw [Kernel.copyEntry, h.kernel]
  have hother := fun x (hx : x % 4096 = 0) (hne : x ≠ kernelDirectory) k (hk : k < 1024) =>
    entry_setEntry_frame (s := paging) (paging.entry (s.directory p) (dirIndex start.toNat)) hx
      hf.kernel.aligned hne hk hj
  have hproc := fun q (hq : q < s.created) =>
    hother _ (h.process q hq).1.aligned (h.process q hq).2
  refine ⟨h.kernel, h.process, h.apart, fun q hq => ?_, fun j q hjq => ?_⟩
  · refine (h.holds q hq).congr (hproc q hq) fun x j hx => ?_
    exact hother x hx.aligned (At.ne hx hf.kernel (by intro e; cases e))
  · by_cases e : j = dirIndex start.toNat
    · subst e
      rw [Function.update_self] at hjq
      obtain rfl := Option.some.inj hjq
      refine ⟨hj, hp, ?_⟩
      rw [hproc p hp _ hj, entry_setEntry, PTE.decode_encode]
    · rw [Function.update_of_ne e] at hjq
      obtain ⟨hjlt, hq, hentry⟩ := h.copied j q hjq
      refine ⟨hjlt, hq, ?_⟩
      rw [hproc q hq j hjlt, ← hentry, entry_setEntry_apart _ _ (by omega)]

/-- copying the entries for a list of pointers -/
theorem Tables.copies (hf : f.Ok) (hp : p < s.created) (starts : List UInt32)
    (h : Tables f s paging c) :
    Tables f s (starts.foldl (Kernel.copyEntry s.kernelPagingDirectory (s.directory p)) paging)
      (starts.foldl (fun c start => Function.update c (dirIndex start.toNat) (some p)) c) := by
  induction starts generalizing paging c with
  | nil => exact h
  | cons start starts ih => exact ih (h.copy hf hp start)

/-- the memory changes inside a page of a process only -/
theorem Tables.bytes (hf : f.Ok) (h : Tables f s paging c) {y d : Nat} (hy : f.At y (.page d)) {m : Mem}
    (hm : ∀ x, x < y ∨ y + 4096 ≤ x → m x = paging.mem x) : Tables f s { paging with mem := m } c := by
  have hother := fun z u (hz : f.At z u) (hu : u ≠ .page d) => entry_of_bytes hy hz hu hm
  have hproc := fun q (hq : q < s.created) =>
    hother _ _ (h.process q hq).1 (by intro e; cases e)
  refine ⟨h.kernel, h.process, h.apart, fun q hq => ?_, fun j q hjq => ?_⟩
  · refine (h.holds q hq).congr (hproc q hq) fun z j hz => ?_
    exact hother z _ hz (by intro e; cases e)
  · obtain ⟨hjlt, hq, hentry⟩ := h.copied j q hjq
    refine ⟨hjlt, hq, ?_⟩
    rw [hproc q hq j hjlt, ← hentry, hother _ _ hf.kernel (by intro e; cases e) j hjlt]

end

namespace Kernel
section
variable {s t : Kernel} {a : Action}

/-- a keyboard interrupt stores one byte at most -/
theorem Step.stores_keyboard {x : Trap} (hs : s.Step (.keyboard x) t) (hi : s.Inv) :
    ∃ r, ps2KeyboardInterrupt s.keyboard x.data = .ok r ∧
      t.stores = s.stores ++ r.store.toList.map fun b => ⟨s.cr3, b.1, b.2⟩ := by
  cases hs.outcome hi with
  | typed _ r hr => exact ⟨r, hr, rfl⟩
  | answered _ r _ hr => exact ⟨r, hr, rfl⟩

theorem Step.stores_other (hs : s.Step a t) (hi : s.Inv) (ha : ∀ x, a ≠ .keyboard x) :
    t.stores = s.stores := by
  cases hs.outcome hi with
  | typed x => exact absurd rfl (ha x)
  | answered x => exact absurd rfl (ha x)
  | _ => rfl

end
end Kernel

namespace Typing

/-- the request the kernel has registered is the one of the process that waits -/
def Registered (s : Kernel) (asked : Nat → Option Asked) : Prop :=
  s.keyboard.gets.enabled = true → ∃ p r, s.processWaitingGets = some p ∧ asked p = some r ∧
    r.buffer = s.keyboard.gets.buffer ∧ UInt32.ofNat r.typed = s.keyboard.gets.alreadyCount

structure Inv (f : Frames) (l : Typing) : Prop where
  kernel : l.kernel.Inv
  tables : Tables f l.kernel l.kernel.paging l.copier
  registered : Registered l.kernel l.asked

section
variable {f : Frames} {l m : Typing} {a : Action} {t : Kernel} {p : Nat}

/-! ## the request -/

/-- a step that leaves the request alone but for the characters it stores -/
theorem registered_of_same (h : Registered l.kernel l.asked) (ht : t.Inv) (ha : a.asks = none)
    (he : t.keyboard.gets.enabled = true → l.kernel.keyboard.gets.enabled = true)
    (hb : t.keyboard.gets.buffer = l.kernel.keyboard.gets.buffer)
    (hn : t.keyboard.gets.alreadyCount = l.kernel.keyboard.gets.alreadyCount
      + UInt32.ofNat (t.stores.length - l.kernel.stores.length))
    (hw : t.processWaitingGets = l.kernel.processWaitingGets) : Registered t (l.record a t) := by
  intro hen
  obtain ⟨p, r, hp, hr, hbuf, hcount⟩ := h (he hen)
  obtain ⟨q, hq, hblocked, -⟩ := ht.waiter hen
  have e : q = p := Option.some.inj (hq.symm.trans (hw.trans hp))
  refine ⟨p, { r with typed := r.typed + (t.stores.length - l.kernel.stores.length) },
    hw.trans hp, ?_, hbuf.trans hb.symm, ?_⟩
  · rw [record, ha, if_neg (fun h => absurd h.1 Bool.false_ne_true), if_pos (e ▸ hblocked), hr]
    rfl
  · show UInt32.ofNat (r.typed + _) = _
    rw [UInt32.ofNat_add, hcount, hn]

/-- a step that leaves the keyboard alone -/
theorem registered_of_idle (h : Registered l.kernel l.asked) (ht : t.Inv) (ha : a.asks = none)
    (hk : t.keyboard = l.kernel.keyboard) (hs : t.stores = l.kernel.stores)
    (hw : t.processWaitingGets = l.kernel.processWaitingGets) : Registered t (l.record a t) := by
  refine registered_of_same h ht ha ?_ ?_ ?_ hw
  · rw [hk]
    exact id
  · rw [hk]
  · rw [hk, hs, Nat.sub_self]
    exact (UInt32.add_zero _).symm

theorem registered_step (h : Registered l.kernel l.asked) (hi : l.kernel.Inv) (hs : l.kernel.Step a t) :
    Registered t (l.record a t) := by
  have ht := Kernel.inv_step hi hs
  cases hs.outcome hi with
  | enqueued => exact registered_of_idle h ht rfl rfl rfl rfl
  | idle => exact registered_of_idle h ht rfl rfl rfl rfl
  | dispatched => exact registered_of_idle h ht rfl rfl rfl rfl
  | ticked => exact registered_of_idle h ht rfl rfl rfl rfl
  | preempted => exact registered_of_idle h ht rfl rfl rfl rfl
  | typed x r hr =>
    obtain ⟨-, hbuf, hoff⟩ := interrupt_gets hr
    refine registered_of_same h ht rfl (fun he => ?_) hbuf ?_ rfl
    · by_contra hf
      exact absurd ((hoff (Bool.eq_false_iff.mpr hf)).symm.trans he) Bool.false_ne_true
    · show r.keyboard.gets.alreadyCount = _ + UInt32.ofNat ((l.kernel.stores ++ _).length - _)
      rw [List.length_append, Nat.add_sub_cancel_left, List.length_map]
      exact (interrupt_store hr).1
  | answered x r p _ _ _ hdone => exact fun he => absurd (hdone.symm.trans he) Bool.false_ne_true
  | served x _ _ _ _ ho => exact registered_of_idle h ht (Ledger.asks_eq_none ho.1) rfl rfl rfl
  | gets x p paging hr _ h4 =>
    intro _
    refine ⟨p, ⟨x.regs.ebx, 0⟩, rfl, ?_, rfl, rfl⟩
    rw [record, Ledger.asks_eq_some h4, if_pos ⟨rfl, hr ▸ List.mem_singleton_self p⟩]
    rfl
  | sleep x p _ _ h5 =>
    have h4 : x.regs.eax ≠ 4 := by
      rw [h5]
      decide
    exact registered_of_idle h ht (Ledger.asks_eq_none h4) rfl rfl rfl

/-! ## the page tables -/

theorem tables_step (hf : f.Ok) (h : Tables f l.kernel l.kernel.paging l.copier) (hi : l.kernel.Inv)
    (hs : l.kernel.Step a t) (ha : ∀ image, a ≠ .execv image) :
    Tables f t t.paging (l.copied a) := by
  obtain ⟨hn, hk, hd⟩ := hs.directory hi ha
  refine Tables.congr ?_ hn hk hd
  rcases hs.paging hi ha with ⟨hc, hp⟩ | ⟨p, hcur, hlt, hp⟩
  · rw [hp, copied, hc]
    exact h
  · rw [hp, copied, hcur]
    exact h.copies hf hlt a.copies

/-- a byte of a process outside `Kernel_maps` is in a page of its own -/
theorem own_page (hf : f.Ok) (h : Tables f l.kernel l.kernel.paging l.copier) (hp : p < l.kernel.created)
    {address : UInt32} {x : Nat} (hpage : ¬ KernelPage (address.toNat / 4096))
    (hx : l.byteOf p address = some x) :
    ∃ y, f.At y (.page (l.kernel.directory p)) ∧ y ≤ x ∧ x < y + 4096 := by
  obtain ⟨hat, hne⟩ := h.process p hp
  rw [byteOf, (h.holds p hp).walk hf address.toNat_lt] at hx
  obtain ⟨y, hy, rfl⟩ := Option.map_eq_some_iff.mp hx
  have hown := (hf.own _ _ y hne hy).resolve_left fun e => hpage e.1
  exact ⟨y, hown, by omega, by omega⟩

theorem deliver_one {s : Kernel} {u : UserStore} {x : Nat}
    (h : checkAddressMapping s.paging u.address.toNat u.cr3 = some x) :
    [u].foldlM Kernel.deliver s = .ok (s.put x u.byte) := by
  rw [List.foldlM_cons, Kernel.deliver_ok h]
  rfl

/-- where the next character goes -/
theorem Ready.walk {r : Asked} (hr : l.Ready p r) (h : Tables f l.kernel l.kernel.paging l.copier) :
    checkAddressMapping l.kernel.paging r.next.toNat l.kernel.cr3 = l.byteOf p r.next := by
  obtain ⟨-, -, hentry⟩ := h.copied _ p hr.copied
  rw [hr.kernel, h.kernel]
  exact walk_same hentry

/-- a step either stores nothing or is a key press that is accepted -/
theorem step_cases (hf : f.Ok) (hi : l.Inv f) (hfits : l.Fits a) (hs : l.kernel.Step a t)
    (ha : ∀ image, a ≠ .execv image) :
    ((t.stores.drop l.kernel.stores.length).foldlM Kernel.deliver t = .ok t ∧
      ∀ byte, ¬ l.Accepts a byte) ∨
    ∃ p req y z byte, l.kernel.processWaitingGets = some p ∧ l.asked p = some req ∧
      p < l.kernel.created ∧ l.byteOf p req.next = some z ∧
      f.At y (.page (l.kernel.directory p)) ∧ y ≤ z ∧ z < y + 4096 ∧ t.paging = l.kernel.paging ∧
      (t.stores.drop l.kernel.stores.length).foldlM Kernel.deliver t = .ok (t.put z byte) ∧
      ∀ byte', l.Accepts a byte' → byte' = byte := by
  have hnone : t.stores = l.kernel.stores →
      (t.stores.drop l.kernel.stores.length).foldlM Kernel.deliver t = .ok t := by
    intro e
    rw [e, List.drop_length]
    rfl
  by_cases hkey : ∃ x, a = .keyboard x
  swap
  · have hkey : ∀ x, a ≠ .keyboard x := not_exists.mp hkey
    exact .inl ⟨hnone (hs.stores_other hi.kernel hkey), fun _ ⟨x, _, _, hx, _⟩ => hkey x hx⟩
  obtain ⟨x, rfl⟩ := hkey
  obtain ⟨r, hr, hstores⟩ := hs.stores_keyboard hi.kernel
  have haccepts : ∀ byte', l.Accepts (.keyboard x) byte' → ∃ address, r.store = some (address, byte') := by
    rintro byte' ⟨x', r', address', hx', -, hr', hstore'⟩
    cases hx'
    obtain rfl := Except.ok.inj (hr.symm.trans hr')
    exact ⟨address', hstore'⟩
  cases hstore : r.store with
  | none =>
    refine .inl ⟨hnone ?_, fun byte hacc => ?_⟩
    · rw [hstores, hstore]
      exact List.append_nil _
    · obtain ⟨address, h⟩ := haccepts byte hacc
      cases hstore.symm.trans h
  | some b =>
    obtain ⟨address, byte⟩ := b
    right
    obtain ⟨hen, haddress⟩ := (interrupt_store hr).2 address byte hstore
    obtain ⟨p, req, hp, hreq, hbuf, hcount⟩ := hi.registered hen
    have hnext : req.next = address := by rw [Asked.next, hbuf, hcount, haddress]
    have hready := hfits byte ⟨x, r, address, rfl, hs.1, hr, hstore⟩ p req hreq
    obtain ⟨-, hlt, -⟩ := hi.tables.copied _ p hready.copied
    obtain ⟨z, hz⟩ := Option.isSome_iff_exists.mp hready.mapped
    obtain ⟨y, hy, hle, hzy⟩ := own_page hf hi.tables hlt hready.own hz
    have hpaging := hs.paging_keyboard hi.kernel
    refine ⟨p, req, y, z, byte, hp, hreq, hlt, hz, hy, hle, hzy, hpaging, ?_, fun byte' hacc => ?_⟩
    · rw [hstores, hstore, List.drop_left]
      have hwalk : checkAddressMapping t.paging address.toNat l.kernel.cr3 = some z := by
        rw [hpaging, ← hnext, hready.walk hi.tables, hz]
      exact deliver_one hwalk
    · obtain ⟨address', h⟩ := haccepts byte' hacc
      cases hstore.symm.trans h
      rfl

theorem inv_step (hf : f.Ok) (hi : l.Inv f) (hfits : l.Fits a) (hs : l.Step a m) : m.Inv f := by
  obtain ⟨ha, t, hs, hd, hasked, hcopier⟩ := hs
  have ht := Kernel.inv_step hi.kernel hs
  have htables := tables_step hf hi.tables hi.kernel hs ha
  have hreg := registered_step hi.registered hi.kernel hs
  obtain ⟨k, asked, copier⟩ := m
  subst hasked hcopier
  rcases step_cases hf hi hfits hs ha with
    ⟨hstore, -⟩ | ⟨p, req, y, z, byte, -, -, -, -, hy, hle, hlt, -, hstore, -⟩
  · obtain rfl := Except.ok.inj (hstore.symm.trans hd)
    exact ⟨ht, htables, hreg⟩
  · obtain rfl := Except.ok.inj (hstore.symm.trans hd)
    have hput : Tables f t { t.paging with mem := writeByte t.paging.mem z byte } (l.copied a) := by
      refine htables.bytes hf hy fun x hx => ?_
      rw [writeByte, if_neg (by omega)]
    exact ⟨ht.paging _, hput.congr rfl rfl fun _ => rfl, hreg⟩

theorem delivers_of_fits (hf : f.Ok) (hi : l.Inv f) (hfits : l.Fits a) : l.Delivers a := by
  intro byte hacc p r hasked
  obtain ⟨x, res, address, rfl, hen, hres, hstore⟩ := hacc
  obtain ⟨t, hok, -⟩ := Kernel.keyboard_ok hi.kernel hen hres
  have hs : l.kernel.Step (.keyboard x) t := ⟨hen, hok⟩
  have ha : ∀ image, Action.keyboard x ≠ .execv image := fun _ h => by cases h
  have hacc : l.Accepts (.keyboard x) byte := ⟨x, res, address, rfl, hen, hres, hstore⟩
  rcases step_cases hf hi hfits hs ha with
    ⟨-, hno⟩ | ⟨q, req, y, z, byte', hw, hreq, hlt, hz, hy, hle, hzy, hpaging, hd, hbyte⟩
  · exact absurd hacc (hno byte)
  · obtain rfl := hbyte byte hacc
    have hready := hfits byte hacc p r hasked
    obtain rfl : p = q := Option.some.inj (hready.registered.symm.trans hw)
    obtain rfl : r = req := Option.some.inj (hasked.symm.trans hreq)
    refine ⟨⟨t.put z byte, l.record (.keyboard x) t, l.copied (.keyboard x)⟩,
      ⟨ha, t, hs, hd, rfl, rfl⟩, ⟨z, hz, if_pos rfl⟩, ?_⟩
    rintro q hq hne w ⟨b, hpage, hw⟩
    -- the byte of another process is in another frame
    obtain ⟨v, hv, hvw, hwv⟩ := own_page hf hi.tables hq hpage hw
    have hdir := hi.tables.apart q hq p hlt hne
    have hvy := At.ne hv hy (by intro e; injection e with e; exact hdir e)
    have h1 := hv.aligned
    have h2 := hy.aligned
    show writeByte t.paging.mem z byte w = _
    rw [hpaging, writeByte, if_neg (by omega)]

/-- a key press while another process `q` runs leaves the memory of `p` alone -/
theorem unchanged_of_other (hf : f.Ok) (hi : l.Inv f) {x : Trap} (hs : l.Step (.keyboard x) m) {q : Nat}
    {address : UInt32} (haddress : l.kernel.keyboard.gets.buffer + l.kernel.keyboard.gets.alreadyCount = address)
    (hcr3 : l.kernel.cr3 = l.kernel.directory q) (hq : q < l.kernel.created) (hp : p < l.kernel.created)
    (hne : p ≠ q) (hpage : ¬ KernelPage (address.toNat / 4096)) (hmapped : (l.byteOf q address).isSome)
    {w : Nat} (hw : l.Owns p w) : m.kernel.paging.mem w = l.kernel.paging.mem w := by
  obtain ⟨ha, t, hs, hd, -, -⟩ := hs
  obtain ⟨r, hr, hstores⟩ := hs.stores_keyboard hi.kernel
  have hpaging := hs.paging_keyboard hi.kernel
  rw [hstores, List.drop_left] at hd
  cases hstore : r.store with
  | none =>
    rw [hstore] at hd
    obtain rfl : t = m.kernel := Except.ok.inj hd
    rw [hpaging]
  | some b =>
    obtain ⟨address', byte⟩ := b
    have hnext := ((interrupt_store hr).2 address' byte hstore).2.trans haddress
    subst hnext
    obtain ⟨z, hz⟩ := Option.isSome_iff_exists.mp hmapped
    have hwalk : checkAddressMapping t.paging address'.toNat l.kernel.cr3 = some z := by
      rw [hpaging, hcr3]
      exact hz
    rw [hstore] at hd
    have hone := deliver_one (u := ⟨l.kernel.cr3, address', byte⟩) hwalk
    have e : t.put z byte = m.kernel := Except.ok.inj (hone.symm.trans hd)
    obtain ⟨y, hy, hyz, hzy⟩ := own_page hf hi.tables hq hpage hz
    obtain ⟨b, hb, hw⟩ := hw
    obtain ⟨v, hv, hvw, hwv⟩ := own_page hf hi.tables hp hb hw
    have hdir := hi.tables.apart p hp q hq hne
    have hvy := At.ne hv hy (by intro e; injection e with e; exact hdir e)
    have h1 := hv.aligned
    have h2 := hy.aligned
    rw [← e]
    show writeByte t.paging.mem z byte w = _
    rw [hpaging, writeByte, if_neg (by omega)]

end

/-- the first state -/
theorem inv_start {s : Loader} {f : Frames} (h : Shape s f) {k : Kernel} (hk : Started s k) :
    (start k).Inv f := by
  obtain ⟨b, as, hrun⟩ := hk.reached
  have hmem : ∀ p < k.created, k.directory p ∈ f.directories := by
    intro p hp
    rw [← h.directories, ← hk.directories]
    exact List.mem_map_of_mem (List.mem_range.mpr hp)
  refine ⟨Kernel.inv_run hrun, ⟨?_, ?_, ?_, ?_, ?_⟩, ?_⟩
  · exact hk.kernelPagingDirectory.trans h.kernel
  · exact fun p hp => h.ok.processes _ (hmem p hp)
  · intro p hp q hq hne e
    have hnd : ((List.range k.created).map k.directory).Nodup := by
      rw [hk.directories, h.directories]
      exact h.ok.nodup
    exact hne (List.inj_on_of_nodup_map hnd (List.mem_range.mpr hp) (List.mem_range.mpr hq) e)
  · intro p hp
    show Holds f k.paging (k.directory p)
    rw [hk.paging]
    exact h.holds (h.ok.processes _ (hmem p hp)).1
  · exact fun j p h => by cases h
  · exact fun he => absurd (hk.noRequest.symm.trans he) Bool.false_ne_true

theorem along_delivers {f : Frames} (hf : f.Ok) {l : Typing} (hi : l.Inv f) {as : List Action}
    (h : Along Step Fits l as) : Along Step Delivers l as := by
  induction as generalizing l with
  | nil => trivial
  | cons a as ih =>
    exact ⟨delivers_of_fits hf hi h.1, fun m hs => ih (inv_step hf hi h.1 hs) (h.2 m hs)⟩

/-- **In every run whose key presses find the process that asked registered last, the kernel's directory
loaded and the page table of that process in it, each character is stored where the page directory of the
process maps its place in the buffer, and no byte of another process changes.** -/
theorem typed_where_asked (mem : Mem) (files : List File) (hfiles : ∀ f ∈ files, StarOS.Accepted f)
    (s : Loader) (hs : Loader.run files (Loader.boot mem) = .ok ⟨⟩ s) (k : Kernel) (hk : Started s k)
    (as : List Action) (h : Along Step Fits (start k) as) : Along Step Delivers (start k) as := by
  obtain ⟨f, hshape, -⟩ := run_ok mem hfiles hs
  exact along_delivers hshape.ok (inv_start hshape hk) h

/-! ## two processes -/

/-- the state after a step that stores nothing -/
def next (l : Typing) (a : Action) : Typing := ⟨l.kernel.next a, l.record a (l.kernel.next a), l.copied a⟩

theorem step_next {l : Typing} {a : Action} (ha : ∀ image, a ≠ .execv image) (hen : l.kernel.Enabled a)
    (hok : (l.kernel.step a).isOk = true) (hst : (l.kernel.next a).stores = l.kernel.stores) :
    l.Step a (l.next a) := by
  refine ⟨ha, _, Kernel.step_next hen hok, ?_, rfl, rfl⟩
  rw [hst, List.drop_length]
  rfl

theorem next_kernel {l : Typing} {a : Action} {t : Kernel} (h : l.kernel.step a = .ok t) :
    (l.next a).kernel = t := by
  show l.kernel.next a = t
  rw [Kernel.next, h]

theorem next_asked (l : Typing) (a : Action) (p : Nat) :
    (l.next a).asked p = l.record a (l.next a).kernel p := rfl

/-- a dispatch leaves the directories -/
theorem dispatched_directory (s : Kernel) (p : Nat) (ready : List Nat) (kernel : Regs) (flags : UInt32)
    (q : Nat) : (s.dispatched p ready kernel flags).directory q = s.directory q := by
  show (if q = p then { s.procs q with status := .running } else s.procs q).context.pageDirectory = _
  split <;> rfl

theorem Step.unique {l m m' : Typing} {a : Action} (h : l.Step a m) (h' : l.Step a m') : m = m' := by
  obtain ⟨-, t, ht, hd, ha, hc⟩ := h
  obtain ⟨-, t', ht', hd', ha', hc'⟩ := h'
  obtain rfl := Except.ok.inj (ht.2.symm.trans ht'.2)
  obtain ⟨k, asked, copier⟩ := m
  obtain ⟨k', asked', copier'⟩ := m'
  obtain rfl := Except.ok.inj (hd.symm.trans hd')
  subst ha hc ha' hc'
  rfl

/-- `kernel_main` after the loader, with two processes -/
def twoReady (s : Loader) (d d' : Nat) : Kernel :=
  let b : BootState := { Kernel.smallMachine with
    paging := s.paging, kernelPagingDirectory := s.kernelPagingDirectory }
  ((Kernel.boot b).next (.execv ⟨0x59005070, d, 0x08048054, s.paging⟩)).next
    (.execv ⟨0x590050d0, d', 0x08048054, s.paging⟩)

theorem started_two {s : Loader} {d d' : Nat} (h : s.directories = [d, d']) : Started s (twoReady s d d') where
  reached := ⟨_, [.execv _, .execv _], _, Kernel.step_next trivial rfl, _, Kernel.step_next trivial rfl, rfl⟩
  paging := rfl
  kernelPagingDirectory := rfl
  directories := h.symm
  noRequest := rfl

/-- a key is pressed while the registers are `r` -/
def keyPress (r : Regs) (data : UInt8) : Action := .keyboard (Kernel.trapOf r data)

/-- the first process is dispatched and calls `gets`, with a buffer in the last page of its stack -/
def asking (s : Loader) (d d' : Nat) : Typing :=
  ((start (twoReady s d d')).next (.dispatch Kernel.ring0 0x202)).next (Ledger.getsCall 0x0feff000 1)

theorem fits_of_not_keyboard {l : Typing} {a : Action} (ha : ∀ x, a ≠ .keyboard x) : l.Fits a :=
  fun _ ⟨x, _, _, hx, _⟩ => absurd hx (ha x)

theorem dispatched_step (s : Loader) (d d' : Nat) : (start (twoReady s d d')).Step
    (.dispatch Kernel.ring0 0x202) ((start (twoReady s d d')).next (.dispatch Kernel.ring0 0x202)) := by
  have hring0 : ¬ Kernel.ring0.user := by decide
  exact step_next (fun _ h => by cases h) ⟨hring0, hring0⟩ rfl rfl

theorem asking_step (s : Loader) (d d' : Nat) :
    ((start (twoReady s d d')).next (.dispatch Kernel.ring0 0x202)).Step (Ledger.getsCall 0x0feff000 1)
      (asking s d d') := by
  have hring3 : Kernel.ring3.user := by decide
  exact step_next (fun _ h => by cases h) ⟨hring3, Kernel.selector_user 4⟩ rfl rfl

theorem stack_own : ¬ KernelPage ((0x0feff000 : UInt32).toNat / 4096) := by
  have e : (0x0feff000 : UInt32).toNat / 4096 = 0xfeff := rfl
  rw [e, kernelPage_iff]
  omega

/-- the last page of the stack is mapped in every process -/
theorem stack_mapped {f : Frames} (hf : f.Ok) {l : Typing} (hi : l.Inv f) {p : Nat}
    (hp : p < l.kernel.created) (hc : Complete (l.kernel.directory p) f) {a : UInt32} (ha : a.toNat / 4096 = 0xfeff) :
    (l.byteOf p a).isSome := by
  have hmem : Request.stackPage 0x0feff000 ∈ stackRequests :=
    List.mem_map.mpr ⟨0, List.mem_range.mpr (by decide), rfl⟩
  rw [byteOf, (hi.tables.holds p hp).walk hf a.toNat_lt, Option.isSome_map, ha]
  exact Option.isSome_iff_ne_none.mpr (hc.stack _ hmem)

theorem inv_asking {s : Loader} {f : Frames} (h : Shape s f) {d d' : Nat} (hd : s.directories = [d, d']) :
    (asking s d d').Inv f := by
  have h1 := inv_step h.ok (inv_start h (started_two hd))
    (fits_of_not_keyboard fun _ h => by cases h) (dispatched_step s d d')
  exact inv_step h.ok h1 (fits_of_not_keyboard fun _ h => by cases h) (asking_step s d d')

theorem two_directories {mem : Mem} {s : Loader}
    (hs : Loader.run (List.replicate 2 smallProgram) (Loader.boot mem) = .ok ⟨⟩ s) :
    ∃ f d d', Shape s f ∧ s.directories = [d, d'] ∧ Complete d f ∧ Complete d' f := by
  obtain ⟨f, h, hb⟩ := run_ok mem (accepted_replicate smallProgram_accepted 2) hs
  have hlen : f.directories.length = 2 := hb.loaded
  obtain ⟨d, d', hd⟩ := List.length_eq_two.mp hlen
  refine ⟨f, d, d', h, h.directories.trans hd, hb.complete d ?_, hb.complete d' ?_⟩
  · rw [hd]
    exact List.mem_cons_self
  · rw [hd]
    exact List.mem_cons_of_mem _ List.mem_cons_self

/-- the key is pressed before another process is dispatched -/
theorem typed_where_asked_one : ∃ s d d',
    Loader.run (List.replicate 2 smallProgram) (Loader.boot fun _ => 0) = .ok ⟨⟩ s ∧
    s.directories = [d, d'] ∧ Along Step Delivers (start (twoReady s d d'))
      [.dispatch Kernel.ring0 0x202, Ledger.getsCall 0x0feff000 1, keyPress Kernel.ring0 0x1e] := by
  obtain ⟨s, hs⟩ := smallPrograms_complete (n := 2) (by decide)
  obtain ⟨f, d, d', hshape, hd, hc, -⟩ := two_directories hs
  refine ⟨s, d, d', hs, hd, ?_⟩
  refine typed_where_asked (fun _ => 0) _ (accepted_replicate smallProgram_accepted 2) s hs _
    (started_two hd) _ ⟨fits_of_not_keyboard (fun _ h => by cases h), fun l h => ?_⟩
  obtain rfl := (dispatched_step s d d').unique h
  refine ⟨fits_of_not_keyboard (fun _ h => by cases h), fun l h => ?_⟩
  obtain rfl := (asking_step s d d').unique h
  refine ⟨fun byte _ p r hasked => ?_, fun _ _ => trivial⟩
  have hi := inv_asking hshape hd
  by_cases hp : p = 0
  · subst hp
    obtain rfl : (⟨0x0feff000, 0⟩ : Asked) = r := Option.some.inj hasked
    exact ⟨rfl, rfl, rfl, stack_own, stack_mapped hshape.ok hi Nat.two_pos hc rfl⟩
  · have hnot : p ∉ [0] := fun h => hp (List.mem_singleton.mp h)
    have hnone : (asking s d d').asked p = none := (if_neg fun h => hnot h.2).trans (if_neg hnot)
    cases hnone.symm.trans hasked

/-- the keyboard when one character is asked for -/
def askedKeyboard : Keyboard := { Keyboard.boot with gets := ⟨true, 1, 0, 0x0feff000⟩ }

theorem store_of_interrupt {k : Keyboard} {data byte : UInt8} {address : UInt32}
    (h : (ps2KeyboardInterrupt k data).toOption.map Response.store = some (some (address, byte))) :
    ∃ r address, ps2KeyboardInterrupt k data = .ok r ∧ r.store = some (address, byte) := by
  cases hr : ps2KeyboardInterrupt k data with
  | error e =>
    rw [hr] at h
    cases h
  | ok r =>
    rw [hr] at h
    exact ⟨r, address, rfl, Option.some.inj h⟩

theorem two_keys :
    (∃ r address, ps2KeyboardInterrupt askedKeyboard 0x1e = .ok r ∧ r.store = some (address, 0x61)) ∧
    ∃ r address, ps2KeyboardInterrupt askedKeyboard 0x1f = .ok r ∧ r.store = some (address, 0x73) := by
  have ha : (ps2KeyboardInterrupt askedKeyboard 0x1e).toOption.map Response.store
      = some (some (0x0feff000, 0x61)) := by decide +kernel
  have hs : (ps2KeyboardInterrupt askedKeyboard 0x1f).toOption.map Response.store
      = some (some (0x0feff000, 0x73)) := by decide +kernel
  exact ⟨store_of_interrupt ha, store_of_interrupt hs⟩

/-- then the second process is dispatched -/
def otherRuns (s : Loader) (d d' : Nat) : Typing := (asking s d d').next (.dispatch Kernel.ring0 0x202)

/-- the kernel while the first process waits -/
theorem asking_kernel (s : Loader) (d d' : Nat) : ∃ k : Kernel, (asking s d d').kernel = k ∧
    ¬ k.UserMode ∧ (k.procs 1).context.user ∧ k.readyQueue = [1] ∧ k.blockingQueue = [0] ∧
    k.created = 2 ∧ k.directory 1 = d' ∧ k.keyboard = askedKeyboard := by
  have hring0 : ¬ Kernel.ring0.user := by decide
  exact ⟨_, rfl, hring0, Kernel.selector_user 6, rfl, rfl, rfl, rfl, rfl⟩

/-- and when the second one is dispatched -/
theorem otherRuns_kernel (s : Loader) (d d' : Nat) : ∃ k : Kernel, (asking s d d').kernel = k ∧
    ¬ k.UserMode ∧ (k.procs 1).context.user ∧ k.blockingQueue = [0] ∧ k.created = 2 ∧
    k.directory 1 = d' ∧ k.keyboard = askedKeyboard ∧
    k.step (.dispatch Kernel.ring0 0x202) = .ok (k.dispatched 1 [] Kernel.ring0 0x202) ∧
    (otherRuns s d d').kernel = k.dispatched 1 [] Kernel.ring0 0x202 := by
  obtain ⟨k, hk, hmode, huser, hready, hblocking, hcreated, hdirectory, hkeyboard⟩ := asking_kernel s d d'
  have hstep := Kernel.schedular_cons Kernel.ring0 0x202 hready
  refine ⟨k, hk, hmode, huser, hblocking, hcreated, hdirectory, hkeyboard, hstep, next_kernel ?_⟩
  rw [hk]
  exact hstep

theorem otherRuns_step (s : Loader) (d d' : Nat) :
    (asking s d d').Step (.dispatch Kernel.ring0 0x202) (otherRuns s d d') := by
  have hring0 : ¬ Kernel.ring0.user := by decide
  obtain ⟨k, hk, hmode, -, -, -, -, -, hstep, hother⟩ := otherRuns_kernel s d d'
  refine step_next (fun _ h => by cases h) ⟨?_, hring0⟩ ?_ ?_
  · rw [hk]
    exact hmode
  · rw [hk, hstep]
    rfl
  · show (otherRuns s d d').kernel.stores = _
    rw [hother, hk]
    rfl

theorem otherRuns_asked (s : Loader) (d d' : Nat) : (otherRuns s d d').asked 0 = some ⟨0x0feff000, 0⟩ := by
  obtain ⟨k, hk, -, -, hblocking, -, -, -, -, hother⟩ := otherRuns_kernel s d d'
  have hasked : (asking s d d').asked 0 = some ⟨0x0feff000, 0⟩ := rfl
  have hblocked : 0 ∈ (otherRuns s d d').kernel.blockingQueue := by
    rw [hother]
    show 0 ∈ k.blockingQueue
    rw [hblocking]
    exact List.mem_singleton_self 0
  have hstores : (otherRuns s d d').kernel.stores.length - (asking s d d').kernel.stores.length = 0 := by
    rw [hother, hk]
    exact Nat.sub_self _
  have e : (otherRuns s d d').asked 0 = (asking s d d').record (.dispatch Kernel.ring0 0x202)
    (otherRuns s d d').kernel 0 := next_asked (asking s d d') (.dispatch Kernel.ring0 0x202) 0
  rw [e, record, if_neg (fun h => absurd h.1 Bool.false_ne_true), if_pos hblocked, hasked, hstores]
  rfl

/-- a character typed now leaves the byte of the first process as it is -/
theorem otherRuns_unchanged {f : Frames} (hf : f.Ok) {s : Loader} {d d' : Nat} {m : Typing}
    (hi : (otherRuns s d d').Inv f) (hc : Complete d' f) {data : UInt8}
    (hs : (otherRuns s d d').Step (keyPress Kernel.ring3 data) m) {x : Nat}
    (hx : (otherRuns s d d').byteOf 0 0x0feff000 = some x) :
    m.kernel.paging.mem x = (otherRuns s d d').kernel.paging.mem x := by
  obtain ⟨k, -, -, -, -, hcreated, hdirectory, hkeyboard, -, hother⟩ := otherRuns_kernel s d d'
  have hcreated : (otherRuns s d d').kernel.created = 2 := by
    rw [hother]
    exact hcreated
  have h0 : 0 < (otherRuns s d d').kernel.created := by omega
  have h1 : 1 < (otherRuns s d d').kernel.created := by omega
  have hdirectory : (otherRuns s d d').kernel.directory 1 = d' := by
    rw [hother, dispatched_directory]
    exact hdirectory
  have hcr3 : (otherRuns s d d').kernel.cr3 = (otherRuns s d d').kernel.directory 1 := by
    rw [hother]
    rfl
  have haddress : (otherRuns s d d').kernel.keyboard.gets.buffer
      + (otherRuns s d d').kernel.keyboard.gets.alreadyCount = 0x0feff000 := by
    rw [hother]
    show k.keyboard.gets.buffer + k.keyboard.gets.alreadyCount = _
    rw [hkeyboard]
    rfl
  have hc : Complete ((otherRuns s d d').kernel.directory 1) f := by
    rw [hdirectory]
    exact hc
  have hmapped : ((otherRuns s d d').byteOf 1 0x0feff000).isSome := stack_mapped hf hi h1 hc rfl
  exact unchanged_of_other hf hi hs haddress hcr3 h1 h0 Nat.zero_ne_one stack_own hmapped ⟨_, stack_own, hx⟩

theorem otherRuns_accepts {s : Loader} {d d' : Nat} {data byte : UInt8}
    (h : ∃ r address, ps2KeyboardInterrupt askedKeyboard data = .ok r ∧ r.store = some (address, byte)) :
    (otherRuns s d d').Accepts (keyPress Kernel.ring3 data) byte := by
  obtain ⟨r, address, hr, hstore⟩ := h
  obtain ⟨k, -, -, huser, -, -, -, hkeyboard, -, hother⟩ := otherRuns_kernel s d d'
  have hring3 : Kernel.ring3.user := by decide
  refine ⟨_, r, address, rfl, ⟨fun _ => ?_, fun _ => hring3⟩, ?_, hstore⟩
  · rw [hother]
    exact huser
  · rw [hother]
    show ps2KeyboardInterrupt k.keyboard data = _
    rw [hkeyboard]
    exact hr

/-- **While another process runs, the character goes into its memory.** -/
theorem typed_elsewhere : ¬ ∀ (mem : Mem) (files : List File), (∀ f ∈ files, StarOS.Accepted f) →
    ∀ s, Loader.run files (Loader.boot mem) = .ok ⟨⟩ s → ∀ k, Started s k → ∀ as,
      Along Step Delivers (start k) as := by
  intro hall
  obtain ⟨s, hs⟩ := smallPrograms_complete (n := 2) (by decide)
  obtain ⟨f, d, d', hshape, hd, hc, hc'⟩ := two_directories hs
  have hi := inv_step hshape.ok (inv_asking hshape hd)
    (fits_of_not_keyboard fun _ h => by cases h) (otherRuns_step s d d')
  have hbyte : ∀ data byte, (otherRuns s d d').Accepts (keyPress Kernel.ring3 data) byte →
      ∃ x, (otherRuns s d d').byteOf 0 0x0feff000 = some x ∧
        (otherRuns s d d').kernel.paging.mem x = byte := by
    intro data byte hacc
    have h := hall _ _ (accepted_replicate smallProgram_accepted 2) s hs _ (started_two hd)
      [.dispatch Kernel.ring0 0x202, Ledger.getsCall 0x0feff000 1, .dispatch Kernel.ring0 0x202,
        keyPress Kernel.ring3 data]
    have h := (((h.2 _ (dispatched_step s d d')).2 _ (asking_step s d d')).2 _ (otherRuns_step s d d')).1
    obtain ⟨m, hm, ⟨x, hx, hbyte⟩, -⟩ := h byte hacc 0 _ (otherRuns_asked s d d')
    exact ⟨x, hx, (otherRuns_unchanged hshape.ok hi hc' hm hx).symm.trans hbyte⟩
  -- the same byte would have held both characters before
  obtain ⟨x, hx, hxa⟩ := hbyte 0x1e 0x61 (otherRuns_accepts two_keys.1)
  obtain ⟨y, hy, hys⟩ := hbyte 0x1f 0x73 (otherRuns_accepts two_keys.2)
  obtain rfl := Option.some.inj (hx.symm.trans hy)
  exact absurd (hxa.symm.trans hys) (by decide)

end Typing
end StarOS
