import StarOS.Kernel.Memory

/-!
# How long the kernel lives (`memory_management.cpp` under `schedular.cpp`, `interrupt.cpp`)

An entry of `Allocated_blocks` is never used again, and every move of a process into a queue takes one.

* `Action.spends`      the entries the end of a turn takes at least;
* `spends_step`        what a step takes pays for what it spends, for three entries a new process, and for
                       the place of the process that runs;
* `lifetime`           the processes and turns of a run have 10235 entries, so there are at most 5116 turns;
* `one_process_lives`  a process that only computes gets exactly 5116 turns.
-/

namespace StarOS
open Lib

/-- the entries of `Allocated_blocks` a call takes -/
def NodeCall.entries : NodeCall → Nat
  | .insert _ _ => 1
  | .unlink _ _ => 0
  | .keep _ => 1

namespace Memory
variable {m m' : Memory}

/-- the entries of `Allocated_blocks` in use, valid or not -/
def used (m : Memory) : Nat := m.heap.allocatedBlocks.length

theorem used_malloc {h h' : Heap} {size : UInt32} {p : Nat} (ht : h.Tiled)
    (hm : mallocArray h size = some (p, h')) : h.allocatedBlocks.length ≠ allocatedTableLength := by
  obtain ⟨h₀, -, -, -, hi, -, -, -, hl, -⟩ := mallocArray_some hm
  rw [← ensureInit_allocated ht hi]
  exact hl

theorem used_call (ht : m.heap.Tiled) {c : NodeCall} (h : m.Step c m') :
    m'.used = m.used + c.entries ∧ (m.used ≤ allocatedTableLength → m'.used ≤ allocatedTableLength) := by
  have hmalloc : ∀ {size : UInt32} {p : Nat} {h' : Heap}, mallocArray m.heap size = some (p, h') →
      h'.allocatedBlocks.length = m.used + 1 ∧
        (m.used ≤ allocatedTableLength → h'.allocatedBlocks.length ≤ allocatedTableLength) := by
    intro size p h' hm
    have hlen := (recorded_malloc ht hm).2.2
    have hne : m.used ≠ allocatedTableLength := used_malloc ht hm
    refine ⟨hlen, fun hle => ?_⟩
    rw [hlen]
    exact Nat.lt_of_le_of_ne hle hne
  cases c with
  | insert q p =>
    obtain ⟨r, hm, rfl⟩ := Option.map_eq_some_iff.mp h
    exact hmalloc hm
  | keep size =>
    obtain ⟨r, hm, rfl⟩ := Option.map_eq_some_iff.mp h
    exact hmalloc hm
  | unlink q p =>
    obtain ⟨c, -, h⟩ := Option.bind_eq_some_iff.mp h
    obtain ⟨heap, hf, rfl⟩ := Option.map_eq_some_iff.mp h
    obtain ⟨pre, a, post, ha, -, -, ha', -, -⟩ := freeArray_some hf
    have hlen : heap.allocatedBlocks.length = m.heap.allocatedBlocks.length := by
      rw [ha, ha']
      simp
    exact ⟨hlen, fun hle => hlen.trans_le hle⟩

theorem used_calls (hi : m.Inv) {cs : List NodeCall} (hs : ∀ c ∈ cs, c.Sized) (h : Path Step m cs m') :
    m'.used = m.used + (cs.map NodeCall.entries).sum ∧
      (m.used ≤ allocatedTableLength → m'.used ≤ allocatedTableLength) := by
  induction cs generalizing m with
  | nil =>
    obtain rfl := path_nil.mp h
    exact ⟨rfl, id⟩
  | cons c cs ih =>
    obtain ⟨n, hn, h⟩ := h
    obtain ⟨h1, h2⟩ := used_call hi.tiled hn
    obtain ⟨h3, h4⟩ := ih (inv_call hi (hs c List.mem_cons_self) hn)
      (fun c' hc' => hs c' (List.mem_cons_of_mem _ hc')) h
    refine ⟨?_, fun hle => h4 (h2 hle)⟩
    rw [h3, h1, List.map_cons, List.sum_cons, Nat.add_assoc]

end Memory

/-- what the end of a turn takes at least: one entry for the place of the process in `running_queue`, one for its
place in the queue it goes to, one for a clock -/
def Action.spends : Action → Nat
  | .timer t => if t.regs.user then 2 else 0
  | .syscall t => if t.regs.eax = 4 then 2 else if t.regs.eax = 5 then 3 else 0
  | _ => 0

/-- a turn of a process ends -/
def Action.endsTurn : Action → Bool
  | .timer t => t.regs.user
  | .syscall t => t.regs.eax = 4 ∨ t.regs.eax = 5
  | _ => false

theorem spends_of_endsTurn (a : Action) : 2 * (if a.endsTurn = true then 1 else 0) ≤ a.spends := by
  cases a with
  | execv image => exact Nat.le_refl 0
  | dispatch kernel flags => exact Nat.le_refl 0
  | keyboard t => exact Nat.le_refl 0
  | timer t =>
    show 2 * (if decide t.regs.user = true then 1 else 0) ≤ if t.regs.user then 2 else 0
    by_cases hu : t.regs.user <;> simp [hu]
  | syscall t =>
    show 2 * (if decide (t.regs.eax = 4 ∨ t.regs.eax = 5) = true then 1 else 0)
      ≤ if t.regs.eax = 4 then 2 else if t.regs.eax = 5 then 3 else 0
    by_cases h4 : t.regs.eax = 4
    · simp [h4]
    · by_cases h5 : t.regs.eax = 5 <;> simp [h4, h5]

namespace Kernel
variable {s t : Kernel}

/-- the entries paid for: three for every process, and one for the process that runs -/
def owed (s : Kernel) : Nat := 3 * s.created + s.runningQueue.length

/-- the entries a step takes pay for what it spends -/
theorem spends_step (hi : s.Inv) {a : Action} (hs : s.Step a t) (size : UInt32) :
    t.owed + a.spends ≤ s.owed + ((s.calls size a).map NodeCall.entries).sum := by
  cases a with
  | execv image =>
    cases hs.outcome hi with
    | enqueued _ P gdt =>
      show 3 * (s.created + 1) + s.runningQueue.length + 0 ≤ 3 * s.created + s.runningQueue.length + 3
      omega
  | dispatch kernel flags =>
    rw [calls]
    cases hq : s.readyQueue with
    | nil =>
      obtain rfl := Except.ok.inj ((schedular_nil kernel flags hq).symm.trans hs.2)
      exact Nat.le_refl _
    | cons p ready =>
      obtain rfl := Except.ok.inj ((schedular_cons kernel flags hq).symm.trans hs.2)
      show 3 * s.created + (s.runningQueue ++ [p]).length + 0 ≤ s.owed + (0 + (1 + 0))
      rw [List.length_append, List.length_singleton, owed]
      omega
  | timer x =>
    cases hs.outcome hi with
    | ticked _ hm hr =>
      show s.owed + (if x.regs.user then 2 else 0) ≤ _
      rw [if_neg hr]
      exact Nat.le_add_right _ _
    | preempted _ p hr hu =>
      obtain ⟨hc, hp⟩ := hi.current_of_running hr
      show 3 * s.created + (s.runningQueue.erase p).length + (if x.regs.user then 2 else 0) ≤ _
      rw [if_pos hu, calls, hc, hp, owed, hr, List.erase_cons_head, List.map_append, List.sum_append]
      show 3 * s.created + 0 + 2 ≤ 3 * s.created + 1 + (_ + (0 + (1 + 0)))
      omega
  | keyboard x =>
    cases hs.outcome hi with
    | typed => exact Nat.le_add_right _ _
    | answered => exact Nat.le_add_right _ _
  | syscall x =>
    cases hs.outcome hi with
    | served _ paging eax hu hm hother =>
      show s.owed + (if x.regs.eax = 4 then 2 else if x.regs.eax = 5 then 3 else 0) ≤ _
      rw [if_neg hother.1, if_neg hother.2]
      exact Nat.le_add_right _ _
    | gets _ p paging hr hu h4 =>
      show 3 * s.created + (s.runningQueue.erase p).length +
        (if x.regs.eax = 4 then 2 else if x.regs.eax = 5 then 3 else 0) ≤ _
      rw [if_pos h4, calls, (hi.current_of_running hr).2, h4, owed, hr, List.erase_cons_head]
      show 3 * s.created + 0 + 2 ≤ 3 * s.created + 1 + 1
      omega
    | sleep _ p hr hu h5 =>
      show 3 * s.created + (s.runningQueue.erase p).length +
        (if x.regs.eax = 4 then 2 else if x.regs.eax = 5 then 3 else 0) ≤ _
      rw [if_neg (by rw [h5]; decide), if_pos h5, calls, (hi.current_of_running hr).2, h5, owed, hr,
        List.erase_cons_head]
      show 3 * s.created + 0 + 3 ≤ 3 * s.created + 1 + 2
      omega

/-- a turn is the turn of a process, and no process is forgotten -/
theorem created_step (hi : s.Inv) {a : Action} (hs : s.Step a t) :
    s.created ≤ t.created ∧ (a.endsTurn = true → 0 < s.created) := by
  have hturn : s.UserMode → 0 < s.created := by
    intro hu
    obtain ⟨-, p, hr, -⟩ := hi.user hu
    have hp := (hi.placed.mem_iff p).mpr (Or.inr (Or.inl (hr ▸ List.mem_singleton_self p)))
    omega
  cases hs.outcome hi with
  | enqueued => exact ⟨Nat.le_succ _, fun h => by cases h⟩
  | idle => exact ⟨Nat.le_refl _, fun h => by cases h⟩
  | dispatched => exact ⟨Nat.le_refl _, fun h => by cases h⟩
  | ticked x hm hr => exact ⟨Nat.le_refl _, fun h => absurd (of_decide_eq_true h) hr⟩
  | preempted x p hr hu => exact ⟨Nat.le_refl _, fun _ => hturn (hs.1.mp hu)⟩
  | typed => exact ⟨Nat.le_refl _, fun h => by cases h⟩
  | answered => exact ⟨Nat.le_refl _, fun h => by cases h⟩
  | served x => exact ⟨Nat.le_refl _, fun _ => hturn hs.1.2⟩
  | gets => exact ⟨Nat.le_refl _, fun _ => hturn hs.1.2⟩
  | sleep => exact ⟨Nat.le_refl _, fun _ => hturn hs.1.2⟩

end Kernel

namespace System
variable {m m' : System}

/-- a table that is not overfull, and what is owed has been taken -/
structure Lives (m : System) : Prop where
  inv : m.Inv
  used_le : m.memory.used ≤ allocatedTableLength
  owed_le : 5 + m.kernel.owed ≤ m.memory.used

/-- what the turns have spent so far -/
def spent (m : System) : Nat := m.memory.used - (5 + m.kernel.owed)

theorem lives_step {l : Action × UInt32} (hi : m.Lives) (hl : Sized l) (h : Step m l m') :
    m'.Lives ∧ m.spent + l.1.spends ≤ m'.spent := by
  obtain ⟨hused, hle⟩ := Memory.used_calls hi.inv.memory (calls_sized _ hl) h.2
  have hspends := Kernel.spends_step hi.inv.kernel h.1 l.2
  have howed := hi.owed_le
  refine ⟨⟨inv_step hi.inv hl h, hle hi.used_le, ?_⟩, ?_⟩
  · omega
  · unfold spent
    omega

/-- along a run the turns spend what they take -/
theorem spends_le {ls : List (Action × UInt32)} (hi : m.Lives) (hl : ∀ l ∈ ls, Sized l) (h : Path Step m ls m') :
    m'.Lives ∧ m.spent + (ls.map fun l => l.1.spends).sum ≤ m'.spent :=
  ⟨h.inv_labels (I := Lives) (P := Sized) (fun _ _ _ hi hl hs => (lives_step hi hl hs).1) hl hi,
    h.cost_le (I := Lives) (P := Sized) (fun _ _ _ hi hl hs => lives_step hi hl hs) hl hi⟩

/-- the boot takes five entries -/
theorem lives_booted {b : BootState} {location : DataAddress} (h : Booted b location m) : m.Lives := by
  have hi := inv_booted h
  obtain ⟨hk, hm⟩ := h
  have hsized : ∀ c ∈ bootCalls, c.Sized := by
    intro c hc
    simp only [bootCalls, List.mem_cons, List.not_mem_nil, or_false] at hc
    rcases hc with rfl | rfl | rfl | rfl | rfl <;> exact ⟨by decide, by decide⟩
  obtain ⟨hused, hle⟩ := Memory.used_calls (Memory.inv_boot location) hsized hm
  refine ⟨hi, hle (Nat.zero_le _), ?_⟩
  rw [hused, hk]
  exact Nat.le_refl 5

theorem turns_le (ls : List (Action × UInt32)) :
    2 * ls.countP (fun l => l.1.endsTurn) ≤ (ls.map fun l => l.1.spends).sum := by
  induction ls with
  | nil => exact Nat.le_refl 0
  | cons l ls ih =>
    have hone := spends_of_endsTurn l.1
    rw [List.countP_cons, List.map_cons, List.sum_cons]
    omega

/-- a run with a turn has a process -/
theorem created_of_turn {ls : List (Action × UInt32)} (hi : m.Inv) (hl : ∀ l ∈ ls, Sized l) (h : Path Step m ls m') :
    m.kernel.created ≤ m'.kernel.created ∧ (∀ l ∈ ls, l.1.endsTurn = true → 0 < m'.kernel.created) := by
  induction ls generalizing m with
  | nil =>
    obtain rfl := path_nil.mp h
    exact ⟨Nat.le_refl _, fun l hl => absurd hl List.not_mem_nil⟩
  | cons l ls ih =>
    obtain ⟨n, hn, h⟩ := h
    obtain ⟨hle, hturn⟩ := Kernel.created_step hi.kernel hn.1
    obtain ⟨hle', hturns⟩ := ih (inv_step hi (hl l List.mem_cons_self) hn)
      (fun l' hl' => hl l' (List.mem_cons_of_mem _ hl')) h
    refine ⟨Nat.le_trans hle hle', fun l' hl' he => ?_⟩
    rcases List.mem_cons.mp hl' with rfl | hl'
    · exact Nat.lt_of_lt_of_le (hturn he) (Nat.le_trans hle hle')
    · exact hturns l' hl' he

/-- what a run has taken of `Allocated_blocks` -/
theorem spends_bound {b : BootState} {location : DataAddress} {ls : List (Action × UInt32)}
    (hb : Booted b location m) (hl : ∀ l ∈ ls, Sized l) (h : Path Step m ls m') :
    3 * m'.kernel.created + (ls.map fun l => l.1.spends).sum ≤ 10235 ∧
      ls.countP (fun l => l.1.endsTurn) ≤ 5116 := by
  have hi := lives_booted hb
  obtain ⟨⟨-, hle, howed⟩, hsum⟩ := spends_le hi hl h
  have hbound : 3 * m'.kernel.created + (ls.map fun l => l.1.spends).sum ≤ 10235 := by
    unfold spent at hsum
    unfold Kernel.owed at hsum howed
    unfold allocatedTableLength at hle
    omega
  refine ⟨hbound, ?_⟩
  by_contra hmany
  have hturns := turns_le ls
  obtain ⟨l, hlmem, he⟩ : ∃ l ∈ ls, l.1.endsTurn = true := List.countP_pos_iff.mp (by omega)
  have hcreated := (created_of_turn hi.inv hl h).2 l hlmem he
  omega

/-- **No run of the kernel creates processes and ends turns for more than 10235 entries of
`Allocated_blocks`: three for a process, two for a turn that ends in a timer interrupt or a `gets`, three for
one that ends in a `sleep`.  So no run has more than 5116 turns.** -/
theorem lifetime (b : BootState) (location : DataAddress) (m₀ m : System) (ls : List (Action × UInt32))
    (hb : Booted b location m₀) (hl : ∀ l ∈ ls, Sized l) (h : Path Step m₀ ls m) :
    3 * m.kernel.created + (ls.map fun l => l.1.spends).sum ≤ 10235 ∧
      ls.countP (fun l => l.1.endsTurn) ≤ 5116 := spends_bound hb hl h

/-- a process in its first turn -/
theorem lifetime_one : ∃ m₀ m, Path Step m₀ smallLabels m ∧
    3 * m.kernel.created + (smallLabels.map fun l => l.1.spends).sum ≤ 10235 := by
  obtain ⟨m₀, m, hb, h, -⟩ := small_run
  exact ⟨m₀, m, h, (lifetime _ _ m₀ m _ hb smallLabels_sized h).1⟩

end System

/-! ## one process that only computes -/

/-- the heap is one free block behind the blocks in use -/
structure Front (h : Heap) (a : Nat) (base : List MemoryBlock) : Prop where
  initialized : h.mallocInitialized = true
  free : h.freeBlocks = [⟨a, heapEnd, heapEnd - a, true⟩]
  allocated : h.allocatedBlocks = base

theorem Front.malloc {h : Heap} {a n : Nat} {base : List MemoryBlock} (hf : Front h a base) (size : UInt32)
    (hsize : alignSize size.toNat = n) (hfit : a + n ≤ heapEnd) (hroom : base.length < allocatedTableLength) :
    ∃ h', mallocArray h size = some (a, h') ∧ Front h' (a + n) (base ++ [⟨a, a + n, n, true⟩]) := by
  have hensure : h.ensureInit = some h := if_pos hf.initialized
  have hwrap : wrap32 (a + n) = a + n := by
    refine wrap32_of_lt ?_
    have hend : heapEnd = 0x78405000 := rfl
    omega
  have hle : n ≤ heapEnd - a := Nat.le_sub_of_add_le' hfit
  have hfits : MemoryBlock.fits n ⟨a, heapEnd, heapEnd - a, true⟩ = true := decide_eq_true hle
  have hcarve : MemoryBlock.carve n ⟨a, heapEnd, heapEnd - a, true⟩ = ⟨a + n, heapEnd, heapEnd - (a + n), true⟩ := by
    rw [MemoryBlock.carve, hwrap, Nat.sub_sub]
  rw [mallocArray, hensure, Option.bind_some, hsize, hf.free]
  show ∃ h', (firstFit n [_]).bind _ = _ ∧ _
  rw [firstFit, if_pos hfits, Option.bind_some, hcarve]
  show ∃ h', (if h.allocatedBlocks.length = allocatedTableLength then none else _) = _ ∧ _
  rw [hf.allocated, if_neg (Nat.ne_of_lt hroom)]
  exact ⟨_, rfl, hf.initialized, rfl, rfl⟩

/-- the node of the process, the last block in use, after `k` moves from queue to queue -/
structure Spins (m : Memory) (q : Queue) (p a : Nat) (base : List MemoryBlock) (k : Nat) : Prop where
  initialized : m.heap.mallocInitialized = true
  free : m.heap.freeBlocks = [⟨a + 8, heapEnd, heapEnd - (a + 8), true⟩]
  allocated : m.heap.allocatedBlocks = base ++ (List.replicate k ⟨a, a + 8, 8, false⟩ ++ [⟨a, a + 8, 8, true⟩])
  cells : m.cells = Function.update (fun _ => []) q [(a, p)]

section
variable {m : Memory} {q : Queue} {p a k : Nat} {base : List MemoryBlock}

theorem Spins.take (h : Spins m q p a base k) (hbase : ∀ b ∈ base, b.start ≠ a) :
    takeAllocated a m.heap.allocatedBlocks
      = some (⟨a, a + 8, 8, true⟩, base ++ List.replicate (k + 1) ⟨a, a + 8, 8, false⟩) := by
  have hlast : (base ++ (List.replicate k ⟨a, a + 8, 8, false⟩ ++ [(⟨a, a + 8, 8, true⟩ : MemoryBlock)]))[base.length + k]?
      = some ⟨a, a + 8, 8, true⟩ := by
    rw [List.getElem?_append_right (Nat.le_add_right _ _), Nat.add_sub_cancel_left,
      List.getElem?_append_right (by rw [List.length_replicate]), List.length_replicate, Nat.sub_self]
    rfl
  have hfirst : ∀ i < base.length + k, ∀ b,
      (base ++ (List.replicate k ⟨a, a + 8, 8, false⟩ ++ [(⟨a, a + 8, 8, true⟩ : MemoryBlock)]))[i]? = some b →
        b.isValid = true → b.start ≠ a := by
    intro i hi b hb hv
    by_cases hlt : i < base.length
    · rw [List.getElem?_append_left hlt] at hb
      exact hbase b (List.mem_of_getElem? hb)
    · rw [List.getElem?_append_right (by omega), List.getElem?_append_left
        (by rw [List.length_replicate]; omega)] at hb
      rw [List.eq_of_mem_replicate (List.mem_of_getElem? hb)] at hv
      cases hv
  rw [h.allocated, takeAllocated_first hlast rfl hfirst]
  congr 2
  rw [List.set_append_right _ _ (Nat.le_add_right _ _), Nat.add_sub_cancel_left,
    List.set_append_right _ _ (by rw [List.length_replicate]), List.length_replicate, Nat.sub_self,
    List.replicate_succ']
  rfl

/-- the node is freed, merged into the free block, and carved off again -/
theorem Spins.move (q' : Queue) (h : Spins m q p a base k) (hbase : ∀ b ∈ base, b.start ≠ a) (ha : a + 8 ≤ heapEnd)
    (hq : nodeSize q' = 8) (hroom : base.length + k + 1 < allocatedTableLength) :
    ∃ m', Path Memory.Step m [.unlink q p, .insert q' p] m' ∧ Spins m' q' p a base (k + 1) := by
  have hfind : (m.cells q).find? (fun c => c.2 = p) = some (a, p) := by
    rw [h.cells, Function.update_self, List.find?_cons_of_pos (by simp)]
  have hend : heapEnd = 0x78405000 := rfl
  have hwrap : wrap32 (heapEnd - (a + 8) + 8) = heapEnd - a := by
    rw [wrap32_of_lt (by omega)]
    omega
  have hmeets : MemoryBlock.meets ⟨a, a + 8, 8, true⟩ ⟨a + 8, heapEnd, heapEnd - (a + 8), true⟩ = true :=
    decide_eq_true rfl
  have hmerge : mergeInto ⟨a, a + 8, 8, true⟩ m.heap.freeBlocks = some [⟨a, heapEnd, heapEnd - a, true⟩] := by
    rw [h.free, mergeInto, if_pos hmeets]
    simp only [hwrap]
  have hfree : freeArray m.heap a = some { m.heap with
      freeBlocks := [⟨a, heapEnd, heapEnd - a, true⟩]
      allocatedBlocks := base ++ List.replicate (k + 1) ⟨a, a + 8, 8, false⟩ } := by
    rw [freeArray, h.take hbase, Option.bind_some]
    simp only [hmerge]
  have hcells : Function.update m.cells q ((m.cells q).erase (a, p)) = fun _ => [] := by
    rw [h.cells, Function.update_self, Function.update_idem, List.erase_cons_head]
    exact Function.update_eq_self q fun _ => []
  have hunlink : m.call (.unlink q p) = some { m with
      heap := { m.heap with
        freeBlocks := [⟨a, heapEnd, heapEnd - a, true⟩]
        allocatedBlocks := base ++ List.replicate (k + 1) ⟨a, a + 8, 8, false⟩ }
      cells := fun _ => [] } := by
    rw [Memory.call, hfind, Option.bind_some, hfree, Option.map_some, hcells]
  have hfront : Front { m.heap with
      freeBlocks := [⟨a, heapEnd, heapEnd - a, true⟩]
      allocatedBlocks := base ++ List.replicate (k + 1) ⟨a, a + 8, 8, false⟩ } a
      (base ++ List.replicate (k + 1) ⟨a, a + 8, 8, false⟩) := ⟨h.initialized, rfl, rfl⟩
  obtain ⟨heap, hmalloc, hfront⟩ := hfront.malloc (nodeSize q') (n := 8) (by rw [hq]; rfl) ha (by
    rw [List.length_append, List.length_replicate]
    exact hroom)
  refine ⟨_, ⟨_, hunlink, _, Option.map_eq_some_iff.mpr ⟨_, hmalloc, rfl⟩, rfl⟩, hfront.initialized, hfront.free, ?_, rfl⟩
  rw [← List.append_assoc]
  exact hfront.allocated

end

namespace Kernel
variable {s : Kernel} {p : Nat}

/-- `p` is the only process that can run, and no clock runs -/
structure Alone (s : Kernel) (p : Nat) : Prop where
  inv : s.Inv
  ready : s.readyQueue = [p]
  awake : s.waitingSleepQueue = []
  mode : ¬ s.UserMode

/-- a turn: the process is dispatched and interrupted by the timer -/
theorem Alone.turn (h : s.Alone p) {kernel : Regs} (hk : ¬ kernel.user) (flags : UInt32) {x : Trap}
    (hx : x.regs.user) : ∃ t u, s.Step (.dispatch kernel flags) t ∧ t.Step (.timer x) u ∧ u.Alone p ∧
      s.calls 0 (.dispatch kernel flags) = [.unlink .ready p, .insert .running p] ∧
      t.calls 0 (.timer x) = [.unlink .running p, .insert .ready p] := by
  obtain ⟨t, rfl⟩ : ∃ t, t = s.dispatched p [] kernel flags := ⟨_, rfl⟩
  have hstep : s.Step (.dispatch kernel flags) (s.dispatched p [] kernel flags) :=
    ⟨⟨h.mode, hk⟩, schedular_cons kernel flags h.ready⟩
  have hi := inv_step h.inv hstep
  have hrun : (s.dispatched p [] kernel flags).runningQueue = [p] := by
    show s.runningQueue ++ [p] = [p]
    rw [(h.inv.kernel h.mode).2]
    rfl
  have hcurrent := hi.current_of_running hrun
  have huser : (s.dispatched p [] kernel flags).UserMode := by
    by_contra hu
    rw [(hi.kernel hu).2] at hrun
    cases hrun
  have henabled : (s.dispatched p [] kernel flags).Enabled (.timer x) := ⟨fun _ => huser, fun _ => hx⟩
  obtain ⟨u, hu, ho⟩ := timer_outcome hi henabled
  have hinv := ho.inv hi
  have hcalls : (s.dispatched p [] kernel flags).calls 0 (.timer x) = [.unlink .running p, .insert .ready p] := by
    rw [calls, tickCalls, hcurrent.1, hcurrent.2]
    show (expiring s.waitingSleepQueue).flatMap wakeCalls ++ List.map _ (List.filter _ s.waitingSleepQueue) ++ _ = _
    rw [h.awake]
    rfl
  refine ⟨_, u, hstep, ⟨henabled, hu⟩, ?_, ?_, hcalls⟩
  · cases ho with
    | ticked _ hm => exact absurd huser hm
    | preempted _ p' hr =>
      obtain rfl : p = p' := List.singleton_inj.mp (hrun.symm.trans hr)
      refine ⟨hinv, ?_, ?_, hinv.kernel_context⟩
      · show [] ++ expiring s.waitingSleepQueue ++ [p] = [p]
        rw [h.awake]
        rfl
      · show List.map _ (List.filter _ s.waitingSleepQueue) = []
        rw [h.awake]
        rfl
  · rw [calls, h.ready]

end Kernel

namespace System

/-- `n` turns of a process that only computes -/
def turns (kernel : Regs) (flags : UInt32) (x : Trap) : Nat → List (Action × UInt32)
  | 0 => []
  | n + 1 => (.dispatch kernel flags, 0) :: (.timer x, 0) :: turns kernel flags x n

theorem turns_spend (kernel : Regs) (flags : UInt32) {x : Trap} (hx : x.regs.user) (n : Nat) :
    (turns kernel flags x n).countP (fun l => l.1.endsTurn) = n := by
  induction n with
  | zero => rfl
  | succ n ih =>
    have hend : (Action.timer x).endsTurn = true := decide_eq_true hx
    rw [turns, List.countP_cons_of_neg (by simp [Action.endsTurn]), List.countP_cons_of_pos (by exact hend), ih]

theorem turns_sized (kernel : Regs) (flags : UInt32) (x : Trap) (n : Nat) : ∀ l ∈ turns kernel flags x n, Sized l := by
  induction n with
  | zero => exact fun l hl => absurd hl List.not_mem_nil
  | succ n ih =>
    intro l hl image he
    rcases List.mem_cons.mp hl with rfl | hl
    · cases he
    · rcases List.mem_cons.mp hl with rfl | hl
      · cases he
      · exact ih l hl image he

/-- turns are taken as long as two entries are left for each -/
theorem turns_run {kernel : Regs} (hk : ¬ kernel.user) (flags : UInt32) {x : Trap} (hx : x.regs.user) {p a : Nat}
    {base : List MemoryBlock} (hbase : ∀ b ∈ base, b.start ≠ a) (ha : a + 8 ≤ heapEnd) {n k : Nat} {m : System}
    (hs : m.kernel.Alone p) (hm : Spins m.memory .ready p a base k)
    (hroom : base.length + k + 2 * n < allocatedTableLength) :
    ∃ m', Path Step m (turns kernel flags x n) m' := by
  induction n generalizing m k with
  | zero => exact ⟨m, rfl⟩
  | succ n ih =>
    obtain ⟨t, u, ht, hu, halone, hcalls, hcalls'⟩ := hs.turn hk flags hx
    obtain ⟨m₁, h1, hm₁⟩ := hm.move .running hbase ha rfl (by omega)
    obtain ⟨m₂, h2, hm₂⟩ := hm₁.move .ready hbase ha rfl (by omega)
    rw [← hcalls] at h1
    rw [← hcalls'] at h2
    obtain ⟨m', hpath⟩ := ih (m := ⟨u, m₂⟩) halone hm₂ (by omega)
    exact ⟨m', ⟨t, m₁⟩, ⟨ht, h1⟩, ⟨u, m₂⟩, ⟨hu, h2⟩, hpath⟩

/-- what the boot has allocated -/
def bootBlocks : List MemoryBlock :=
  [⟨freeMemoryStart, freeMemoryStart + 104, 104, true⟩, ⟨freeMemoryStart + 104, freeMemoryStart + 112, 8, true⟩,
    ⟨freeMemoryStart + 112, freeMemoryStart + 120, 8, true⟩, ⟨freeMemoryStart + 120, freeMemoryStart + 152, 32, true⟩,
    ⟨freeMemoryStart + 152, freeMemoryStart + 160, 8, true⟩]

theorem booted_memory {b : BootState} {location : DataAddress} {m : System} (h : Booted b location m) :
    Front m.memory.heap (freeMemoryStart + 160) bootBlocks ∧ m.memory.cells = fun _ => [] := by
  have hl : ¬ (location.val < dataMemoryStart ∨ location.val > dataMemoryEnd) := by
    have := location.property
    omega
  have hfirst : (Memory.boot location).call (.keep sizeofTSS) = some ⟨⟨location, true,
      [⟨freeMemoryStart + 104, heapEnd, heapEnd - (freeMemoryStart + 104), true⟩],
      [⟨freeMemoryStart, freeMemoryStart + 104, 104, true⟩]⟩, [(freeMemoryStart, sizeofTSS)], fun _ => []⟩ := by
    show (((if location.val < dataMemoryStart ∨ location.val > dataMemoryEnd then none
      else some _).map _).bind _).map _ = _
    rw [if_neg hl]
    rfl
  have hpath : ∃ kept, Path Memory.Step (Memory.boot location) bootCalls ⟨⟨location, true,
      [⟨freeMemoryStart + 160, heapEnd, heapEnd - (freeMemoryStart + 160), true⟩], bootBlocks⟩, kept, fun _ => []⟩ :=
    ⟨_, _, hfirst, _, rfl, _, rfl, _, rfl, _, rfl, rfl⟩
  obtain ⟨kept, hpath⟩ := hpath
  rw [memory_unique h.2 hpath]
  exact ⟨⟨rfl, rfl, rfl⟩, rfl⟩

/-- the first `execv`, while its file fits into the heap -/
theorem first_execv {b : BootState} {location : DataAddress} {m : System} (h : Booted b location m) (image : Image)
    {size : UInt32} (hfit : alignSize size.toNat + 248 ≤ freeMemoryLength) :
    ∃ m', Step m (.execv image, size) m' ∧ m'.kernel.Alone 0 ∧ ∃ a base, a + 8 ≤ heapEnd ∧
      (∀ b ∈ base, b.start ≠ a) ∧ base.length = 7 ∧ Spins m'.memory .ready 0 a base 0 := by
  obtain ⟨hfront, hcells⟩ := booted_memory h
  have hend : heapEnd = freeMemoryStart + freeMemoryLength := rfl
  have hi := Kernel.inv_boot b
  obtain ⟨t, ht⟩ : ∃ t, (Kernel.boot b).Step (.execv image) t := ⟨_, trivial, rfl⟩
  have halone : t.Alone 0 := by
    have hinv := Kernel.inv_step hi ht
    cases ht.outcome hi with
    | enqueued _ P gdt => exact ⟨hinv, rfl, rfl, b.ring0⟩
  generalize hsize : alignSize size.toNat = n at hfit
  -- the buffer, the `Process`, the node
  obtain ⟨heap₁, h1, hfront₁⟩ := hfront.malloc size hsize (by omega) (by decide)
  obtain ⟨heap₂, h2, hfront₂⟩ := hfront₁.malloc sizeofProcess (n := 80) rfl (by omega)
    (show 6 < allocatedTableLength by decide)
  obtain ⟨heap₃, h3, hfront₃⟩ := hfront₂.malloc (nodeSize .ready) (n := 8) rfl (by omega)
    (show 7 < allocatedTableLength by decide)
  have hpath : Path Memory.Step m.memory (m.kernel.calls size (.execv image))
      ⟨heap₃, m.memory.kept ++ [(freeMemoryStart + 160, size)] ++ [(freeMemoryStart + 160 + n, sizeofProcess)],
        Function.update m.memory.cells .ready (m.memory.cells .ready ++ [(freeMemoryStart + 160 + n + 80, 0)])⟩ := by
    rw [h.1]
    exact ⟨_, Option.map_eq_some_iff.mpr ⟨_, h1, rfl⟩, _, Option.map_eq_some_iff.mpr ⟨_, h2, rfl⟩, _,
      Option.map_eq_some_iff.mpr ⟨_, h3, rfl⟩, rfl⟩
  refine ⟨⟨t, _⟩, ⟨by rw [h.1]; exact ht, hpath⟩, halone, freeMemoryStart + 160 + n + 80, _, by omega, ?_, rfl,
    hfront₃.initialized, hfront₃.free, hfront₃.allocated, ?_⟩
  · intro c hc
    have hlow : ∀ c ∈ bootBlocks, c.start < freeMemoryStart + 160 := by decide
    rcases List.mem_append.mp hc with hc | hc
    · rcases List.mem_append.mp hc with hc | hc
      · have := hlow c hc
        omega
      · rw [List.mem_singleton.mp hc]
        show freeMemoryStart + 160 ≠ _
        omega
    · rw [List.mem_singleton.mp hc]
      show freeMemoryStart + 160 + n ≠ _
      omega
  · show Function.update m.memory.cells .ready (m.memory.cells .ready ++ _) = _
    rw [hcells]
    rfl

/-- **A process that only computes gets exactly 5116 turns: with one `execv` before it, the run of `n`
dispatches and timer interrupts exists if and only if `n` is at most 5116.** -/
theorem one_process_lives (b : BootState) (location : DataAddress) (m₀ : System) (image : Image) (size : UInt32)
    (kernel : Regs) (flags : UInt32) (x : Trap) (n : Nat) (hb : Booted b location m₀) (hsize : Memory.Sized size)
    (hfit : alignSize size.toNat + 248 ≤ freeMemoryLength) (hk : ¬ kernel.user) (hx : x.regs.user) :
    (∃ m, Path Step m₀ ((.execv image, size) :: turns kernel flags x n) m) ↔ n ≤ 5116 := by
  constructor
  · rintro ⟨m, hm⟩
    have hl : ∀ l ∈ (Action.execv image, size) :: turns kernel flags x n, Sized l := by
      intro l hl
      rcases List.mem_cons.mp hl with rfl | hl
      · exact fun _ _ => hsize
      · exact turns_sized kernel flags x n l hl
    have hbound := (spends_bound hb hl hm).2
    rw [List.countP_cons_of_neg (by simp [Action.endsTurn]), turns_spend kernel flags hx] at hbound
    exact hbound
  · intro hn
    obtain ⟨m, hm, halone, a, base, ha, hbase, hlen, hspins⟩ := first_execv hb image hfit
    obtain ⟨m', hm'⟩ := turns_run hk flags hx hbase ha (n := n) halone hspins (by
      rw [hlen]
      unfold allocatedTableLength
      omega)
    exact ⟨m', m, hm, hm'⟩

/-- the 5116 turns of a process with a file of 8000 bytes -/
theorem one_process_lives_small : ∃ m₀ m, Booted Kernel.smallMachine ⟨dataMemoryStart, by decide⟩ m₀ ∧
    Path Step m₀ ((.execv Kernel.smallImage, 8000) ::
      turns Kernel.ring0 0x202 (Kernel.trapOf Kernel.ring3 0) 5116) m := by
  obtain ⟨m₀, -, hb, -, -⟩ := small_run
  obtain ⟨m, hm⟩ := (one_process_lives _ _ m₀ Kernel.smallImage 8000 Kernel.ring0 0x202
    (Kernel.trapOf Kernel.ring3 0) 5116 hb ⟨by decide, by decide⟩ (by decide) (by decide) (by decide)).mpr (by decide)
  exact ⟨m₀, m, hb, hm⟩

end System
end StarOS
