import StarOS.Kernel.AddressSpace

/-!
# The memory of a process while others run

The processes store where their page directories lead, and the keyboard stores typed characters.

* `Typing.Event`       a step of the kernel, with the character it stores, or a store of the process that runs;
* `running_isolated`   **whenever a process runs it finds the same memory, and outside `Kernel_maps` no page of it
                       is found by another process that runs**;
* `Typing.Writes`      an event that is a store of `p`, or a character typed for `p`;
* `kept_step`, `kept_run`   no other event changes a byte that `p` has for itself;
* `memory_kept`        **what a process stores it finds again, however long others run**, as long as no store goes
                       into `Kernel_maps` and typed characters find the process that asked for them.
-/

namespace StarOS
open Lib

namespace Typing

inductive Event where
  | kernel (a : Action)
  | store (address : UInt32) (byte : UInt8)

/-- a store to an address that is not mapped is a page fault and not a step -/
def Happens (l : Typing) : Event → Typing → Prop
  | .kernel a, m => l.Step a m
  | .store address byte, m => l.kernel.UserMode ∧
      ∃ x, l.kernel.translate address = some x ∧ m = { l with kernel := l.kernel.put x byte }

/-- stores stay outside `Kernel_maps`, and typed characters find the process that asked -/
def Tame (l : Typing) : Event → Prop
  | .kernel a => l.Fits a
  | .store address _ => ¬ KernelPage (address.toNat / 4096)

/-- the event stores into the memory of `p` -/
def Writes (p : Nat) (l : Typing) : Event → Prop
  | .kernel a => (∃ byte, l.Accepts a byte) ∧ l.kernel.processWaitingGets = some p
  | .store _ _ => l.kernel.currentProcess = some p

/-- a state of a run of such events -/
structure Mapped (f : Frames) (k : Kernel) (l : Typing) : Prop where
  inv : l.Inv f
  current : ∀ p, l.kernel.currentProcess = some p → p < l.kernel.created
  space : l.kernel.AddressSpace
  created : l.kernel.created = k.created
  directory : ∀ p, l.kernel.directory p = k.directory p

section
variable {f : Frames} {k : Kernel} {l m : Typing} {e : Event} {p : Nat}

theorem mapped_start {s : Loader} (h : Shape s f) (hk : Started s k) : Mapped f k (start k) := by
  obtain ⟨b, as, hrun⟩ := hk.reached
  exact ⟨inv_start h hk, (Kernel.copying_started h hk).current, Kernel.addressSpace_run hrun, rfl, fun _ => rfl⟩

/-- a private address is in a page of the process -/
theorem private_page (hf : f.Ok) (h : l.Inv f) (hp : p < l.kernel.created) {a : UInt32} (ha : l.kernel.Private p a) :
    ∃ x y, l.kernel.processWalk p a = some x ∧ f.At y (.page (l.kernel.directory p)) ∧ y ≤ x ∧ x < y + 4096 := by
  obtain ⟨hmapped, hpage⟩ := ha
  obtain ⟨x, hx⟩ := Option.isSome_iff_exists.mp hmapped
  obtain ⟨y, hy⟩ := own_page hf h.tables hp hpage hx
  exact ⟨x, y, hx, hy⟩

/-- the walks of a process stay -/
theorem walk_kept (hf : f.Ok) (h : Mapped f k l) (h' : Mapped f k m) (hp : p < l.kernel.created) (a : UInt32) :
    m.kernel.processWalk p a = l.kernel.processWalk p a := by
  have hp' : p < m.kernel.created := by
    rw [h'.created, ← h.created]
    exact hp
  have hd : m.kernel.directory p = l.kernel.directory p := (h'.directory p).trans (h.directory p).symm
  unfold Kernel.processWalk
  rw [(h'.inv.tables.holds p hp').walk hf a.toNat_lt, (h.inv.tables.holds p hp).walk hf a.toNat_lt, hd]

/-- without a character that is accepted nothing is stored -/
theorem stores_of_not_accepts {a : Action} {t : Kernel} (hi : l.kernel.Inv) (hs : l.kernel.Step a t)
    (h : ∀ byte, ¬ l.Accepts a byte) : t.stores = l.kernel.stores := by
  by_cases hkey : ∃ x, a = .keyboard x
  · obtain ⟨x, rfl⟩ := hkey
    obtain ⟨r, hr, hstores⟩ := hs.stores_keyboard hi
    cases hstore : r.store with
    | none =>
      rw [hstores, hstore]
      exact List.append_nil _
    | some b => exact absurd ⟨x, r, b.1, rfl, hs.1, hr, hstore⟩ (h b.2)
  · exact hs.stores_other hi (not_exists.mp hkey)

/-- what a step of the kernel does to the memory: it copies entries into the kernel's directory, and stores the
character in the memory of the process that waits -/
theorem kernel_cases (hf : f.Ok) (h : Mapped f k l) {a : Action} (hfits : l.Fits a) (hs : l.Step a m) :
    ∃ t, l.kernel.Step a t ∧
      ((m.kernel = t ∧ ∀ byte, ¬ l.Accepts a byte) ∨
        ∃ q z y byte, l.kernel.processWaitingGets = some q ∧ q < l.kernel.created ∧
          f.At y (.page (l.kernel.directory q)) ∧ y ≤ z ∧ z < y + 4096 ∧ t.paging = l.kernel.paging ∧
          m.kernel = t.put z byte ∧ ∃ byte, l.Accepts a byte) := by
  obtain ⟨ha, t, hst, hd, -, -⟩ := hs
  refine ⟨t, hst, ?_⟩
  by_cases hacc : ∃ byte, l.Accepts a byte
  · right
    obtain ⟨byte, hbyte⟩ := hacc
    rcases step_cases hf h.inv hfits hst ha with
      ⟨-, hno⟩ | ⟨q, -, y, z, byte', hw, -, hq, -, hy, hyz, hzy, hpaging, hput, -⟩
    · exact absurd hbyte (hno byte)
    · exact ⟨q, z, y, byte', hw, hq, hy, hyz, hzy, hpaging, Except.ok.inj (hd.symm.trans hput), byte, hbyte⟩
  · left
    have hno := not_exists.mp hacc
    rw [stores_of_not_accepts h.inv.kernel hst hno, List.drop_length] at hd
    exact ⟨(Except.ok.inj hd).symm, hno⟩

/-- the store of a process is in a page of its own -/
theorem store_page (hf : f.Ok) (h : Mapped f k l) {address : UInt32} (hpage : ¬ KernelPage (address.toNat / 4096))
    (hu : l.kernel.UserMode) {x : Nat} (hx : l.kernel.translate address = some x) :
    ∃ q y, l.kernel.currentProcess = some q ∧ q < l.kernel.created ∧ l.kernel.processWalk q address = some x ∧
      f.At y (.page (l.kernel.directory q)) ∧ y ≤ x ∧ x < y + 4096 := by
  obtain ⟨q, hq, hcr3⟩ := h.space.process hu
  have hlt := h.current q hq
  have hwalk : l.kernel.processWalk q address = some x := by
    rw [← hx, Kernel.translate, hcr3]
    rfl
  obtain ⟨y, hy⟩ := own_page hf h.inv.tables hlt hpage hwalk
  exact ⟨q, y, hq, hlt, hwalk, hy⟩

theorem mapped_step (hf : f.Ok) (h : Mapped f k l) (htame : l.Tame e) (hs : l.Happens e m) : Mapped f k m := by
  cases e with
  | kernel a =>
    have hinv := inv_step hf h.inv htame hs
    obtain ⟨t, hst, ht⟩ := kernel_cases hf h htame hs
    obtain ⟨hn, -, hdir⟩ := hst.directory h.inv.kernel hs.1
    have hspace := Kernel.addressSpace_step h.inv.kernel h.current h.space hst
    have hcur := hst.current_lt h.inv.kernel h.current
    have hdirectory := fun p => (hdir p).trans (h.directory p)
    obtain ⟨kernel, asked, copier⟩ := m
    rcases ht with ⟨rfl, -⟩ | ⟨q, z, y, byte, -, -, -, -, -, -, rfl, -⟩
    · exact ⟨hinv, hcur, hspace, hn.trans h.created, hdirectory⟩
    · exact ⟨hinv, hcur, ⟨hspace.scheduler, hspace.process, hspace.saved⟩, hn.trans h.created, hdirectory⟩
  | store address byte =>
    obtain ⟨hu, x, hx, rfl⟩ := hs
    obtain ⟨q, y, -, -, -, hy, hyx, hxy⟩ := store_page hf h htame hu hx
    have htables : Tables f l.kernel { l.kernel.paging with mem := writeByte l.kernel.paging.mem x byte } l.copier :=
      h.inv.tables.bytes hf hy fun z hz => by rw [writeByte, if_neg (by omega)]
    refine ⟨⟨h.inv.kernel.paging _, htables.congr rfl rfl fun _ => rfl, h.inv.registered⟩, h.current, ?_, h.created,
      h.directory⟩
    exact ⟨h.space.scheduler, h.space.process, h.space.saved⟩

/-- an event that does not write the memory of `p` leaves it -/
theorem kept_step (hf : f.Ok) (h : Mapped f k l) (htame : l.Tame e) (hs : l.Happens e m) (hno : ¬ l.Writes p e)
    (hp : p < l.kernel.created) {a : UInt32} (ha : l.kernel.Private p a) :
    m.kernel.processByte p a = l.kernel.processByte p a := by
  obtain ⟨x, y, hx, hy, hyx, hxy⟩ := private_page hf h.inv hp ha
  -- bytes in the pages of other processes are elsewhere
  have hother : ∀ {q z y'}, q ≠ p → q < l.kernel.created → f.At y' (.page (l.kernel.directory q)) → y' ≤ z →
      z < y' + 4096 → x ≠ z := by
    intro q z y' hqp hq hy' hle hlt
    have hdir := h.inv.tables.apart q hq p hp hqp
    have hne := hy'.ne hy (by intro e; injection e with e; exact hdir e)
    have h1 := hy.aligned
    have h2 := hy'.aligned
    omega
  have hmem : m.kernel.paging.mem x = l.kernel.paging.mem x := by
    cases e with
    | kernel a =>
      obtain ⟨t, hst, ht⟩ := kernel_cases hf h htame hs
      rcases ht with ⟨hm, -⟩ | ⟨q, z, y', byte, hw, hq, hy', hle, hlt, hpaging, hm, hacc⟩
      · rw [hm]
        rcases hst.paging h.inv.kernel hs.1 with ⟨-, hpaging⟩ | ⟨q, -, hq, hpaging⟩
        · rw [hpaging]
        · have hkernel := hy.ne hf.kernel (by intro e; cases e)
          have h1 := hy.aligned
          have h2 := hf.kernel.aligned
          rw [hpaging]
          refine Kernel.foldl_copyEntry_mem _ _ _ _ ?_
          rw [h.inv.tables.kernel]
          omega
      · have hqp : q ≠ p := by
          rintro rfl
          exact hno ⟨hacc, hw⟩
        rw [hm]
        show writeByte t.paging.mem z byte x = _
        rw [hpaging, writeByte, if_neg (hother hqp hq hy' hle hlt)]
    | store address byte =>
      obtain ⟨hu, z, hz, rfl⟩ := hs
      obtain ⟨q, y', hcur, hq, -, hy', hle, hlt⟩ := store_page hf h htame hu hz
      have hqp : q ≠ p := by
        rintro rfl
        exact hno hcur
      show writeByte l.kernel.paging.mem z byte x = _
      rw [writeByte, if_neg (hother hqp hq hy' hle hlt)]
  have hx' := walk_kept hf h (mapped_step hf h htame hs) hp a
  unfold Kernel.processByte
  rw [hx', hx]
  exact hmem

theorem private_kept (hf : f.Ok) (h : Mapped f k l) (h' : Mapped f k m) (hp : p < l.kernel.created) {a : UInt32}
    (ha : l.kernel.Private p a) : m.kernel.Private p a := by
  obtain ⟨hmapped, hpage⟩ := ha
  exact ⟨by rwa [walk_kept hf h h' hp a], hpage⟩

theorem mapped_run {es : List Event} (hf : f.Ok) (h : Mapped f k l) (hs : Path Happens l es m)
    (htame : Along Happens Tame l es) : Mapped f k m :=
  hs.inv_along (fun _ _ _ h htame hst => mapped_step hf h htame hst) htame h

/-- what a process that runs finds is what the loader mapped for it -/
theorem Mapped.translate (hf : f.Ok) (h : Mapped f k l) (hu : l.kernel.UserMode) (hp : l.kernel.currentProcess = some p)
    (a : UInt32) : l.kernel.translate a = (f.map (k.directory p) (a.toNat / 4096)).map (· + a.toNat % 4096) := by
  unfold Kernel.translate
  rw [h.space.current hu hp, (h.inv.tables.holds p (h.current p hp)).walk hf a.toNat_lt, h.directory p]

theorem kept_run {es : List Event} (hf : f.Ok) (h : Mapped f k l) (hs : Path Happens l es m)
    (hother : Along Happens (fun l e => l.Tame e ∧ ¬ l.Writes p e) l es) (hp : p < l.kernel.created) {a : UInt32}
    (ha : l.kernel.Private p a) : m.kernel.processByte p a = l.kernel.processByte p a := by
  have hall := hs.inv_along (I := fun n => Mapped f k n ∧ n.kernel.processByte p a = l.kernel.processByte p a)
    (fun n e n' hn he hst => ?_) hother ⟨h, rfl⟩
  · exact hall.2
  · obtain ⟨hn, hbyte⟩ := hn
    have hp' : p < n.kernel.created := by
      rw [hn.created, ← h.created]
      exact hp
    have hkept := kept_step hf hn he.1 hst he.2 hp' (private_kept hf h hn hp ha)
    exact ⟨mapped_step hf hn he.1 hst, hkept.trans hbyte⟩

/-- what is stored is found -/
theorem stored_byte (hf : f.Ok) (h : Mapped f k l) {a : UInt32} {byte : UInt8} (hcur : l.kernel.currentProcess = some p)
    (ha : l.kernel.Private p a) (hs : l.Happens (.store a byte) m) : m.kernel.processByte p a = byte := by
  have htame : l.Tame (.store a byte) := ha.2
  have hm := mapped_step hf h htame hs
  obtain ⟨hu, x, hx, rfl⟩ := hs
  obtain ⟨q, -, hq, hlt, hwalk, -⟩ := store_page hf h ha.2 hu hx
  obtain rfl := Option.some.inj (hcur.symm.trans hq)
  have hx' := (walk_kept hf h hm hlt a).trans hwalk
  unfold Kernel.processByte
  rw [hx']
  exact if_pos rfl

end

/-- In all runs after the programs are loaded, with stores of the processes outside `Kernel_maps` and with typed
characters that find the process that asked: whenever a process runs it finds the same memory; and two processes
that run, outside `Kernel_maps`, find no page in common. -/
theorem running_isolated (mem : Mem) (files : List File) (hfiles : ∀ f ∈ files, StarOS.Accepted f) (s : Loader)
    (hs : Loader.run files (Loader.boot mem) = .ok ⟨⟩ s) (k : Kernel) (hk : Started s k) (es es' : List Event)
    (l m : Typing) (hl : Path Happens (start k) es l) (hm : Path Happens (start k) es' m)
    (hes : Along Happens Tame (start k) es) (hes' : Along Happens Tame (start k) es') (p q : Nat)
    (hul : l.kernel.UserMode) (hum : m.kernel.UserMode) (hp : l.kernel.currentProcess = some p)
    (hq : m.kernel.currentProcess = some q) :
    (p = q → ∀ a, m.kernel.translate a = l.kernel.translate a) ∧
    (p ≠ q → ∀ a b : UInt32, ¬ KernelPage (a.toNat / 4096) → ¬ KernelPage (b.toNat / 4096) → ∀ x y,
      l.kernel.translate a = some x → m.kernel.translate b = some y → x / 4096 ≠ y / 4096) := by
  obtain ⟨f, hshape, -⟩ := run_ok mem hfiles hs
  have hf := hshape.ok
  have hl := mapped_run hf (mapped_start hshape hk) hl hes
  have hm := mapped_run hf (mapped_start hshape hk) hm hes'
  refine ⟨?_, fun hne a b ha hb x y hx hy => ?_⟩
  · rintro rfl a
    rw [hl.translate hf hul hp, hm.translate hf hum hq]
  · obtain ⟨p', z, hp', hlt, -, hz, hzx, hxz⟩ := store_page hf hl ha hul hx
    obtain ⟨q', z', hq', hlt', -, hz', hzy, hyz⟩ := store_page hf hm hb hum hy
    obtain rfl := Option.some.inj (hp.symm.trans hp')
    obtain rfl := Option.some.inj (hq.symm.trans hq')
    rw [hm.created, ← hl.created] at hlt'
    rw [hm.directory, ← hl.directory] at hz'
    -- one frame would be a page of two directories
    have hapart := hl.inv.tables.apart p hlt q hlt' hne
    have hzz := hz.ne hz' (by intro e; injection e with e; exact hapart e)
    have h1 := hz.aligned
    have h2 := hz'.aligned
    omega

/-- In every run after the programs are loaded, with stores of the processes outside `Kernel_maps` and with typed
characters that find the process that asked: what a process stores it finds, and what it has for itself changes
neither while others run nor when the kernel works for them. -/
theorem memory_kept (mem : Mem) (files : List File) (hfiles : ∀ f ∈ files, StarOS.Accepted f) (s : Loader)
    (hs : Loader.run files (Loader.boot mem) = .ok ⟨⟩ s) (k : Kernel) (hk : Started s k) (es : List Event)
    (l : Typing) (hl : Path Happens (start k) es l) (htame : Along Happens Tame (start k) es) (p : Nat)
    (hp : p < l.kernel.created) (a : UInt32) (ha : l.kernel.Private p a) :
    (∀ byte m, l.kernel.currentProcess = some p → l.Happens (.store a byte) m → m.kernel.processByte p a = byte) ∧
    ∀ es' m, Path Happens l es' m → Along Happens (fun l e => l.Tame e ∧ ¬ l.Writes p e) l es' →
      m.kernel.processByte p a = l.kernel.processByte p a := by
  obtain ⟨f, hshape, -⟩ := run_ok mem hfiles hs
  have h := mapped_run hshape.ok (mapped_start hshape hk) hl htame
  exact ⟨fun byte m hcur hst => stored_byte hshape.ok h hcur ha hst,
    fun es' m hm hother => kept_run hshape.ok h hm hother hp ha⟩

/-! ## two processes -/

theorem not_writes {l : Typing} {p : Nat} {a : Action} (ha : ∀ x, a ≠ .keyboard x) : ¬ l.Writes p (.kernel a) :=
  fun ⟨⟨_, x, _, _, hx, _⟩, _⟩ => ha x hx

/-- the last page of the stack is mapped for the process that runs -/
theorem stack_translated {f : Frames} {k : Kernel} {l : Typing} {p : Nat} (hf : f.Ok) (h : Mapped f k l)
    (hu : l.kernel.UserMode) (hp : l.kernel.currentProcess = some p) (hc : Frames.Complete (k.directory p) f) :
    ∃ x, l.kernel.translate 0x0feff000 = some x ∧ l.kernel.Private p 0x0feff000 := by
  rw [← h.directory p] at hc
  have hmapped : (l.byteOf p 0x0feff000).isSome := stack_mapped hf h.inv (h.current p hp) hc rfl
  obtain ⟨x, hx⟩ := Option.isSome_iff_exists.mp hmapped
  refine ⟨x, ?_, Option.isSome_iff_exists.mpr ⟨x, hx⟩, stack_own⟩
  rw [← hx, Kernel.translate, h.space.current hu hp]
  rfl

/-- the first process runs -/
def firstRuns (s : Loader) (d d' : Nat) : Typing := (start (twoReady s d d')).next (.dispatch Kernel.ring0 0x202)

theorem tame_dispatch (l : Typing) (r : Regs) (rflags : UInt32) : l.Tame (.kernel (.dispatch r rflags)) :=
  fits_of_not_keyboard fun _ h => by cases h

theorem happens_firstRuns (s : Loader) (d d' : Nat) :
    (start (twoReady s d d')).Happens (.kernel (.dispatch Kernel.ring0 0x202)) (firstRuns s d d') :=
  dispatched_step s d d'

theorem mapped_firstRuns {s : Loader} {f : Frames} {d d' : Nat} (h : Shape s f) (hd : s.directories = [d, d']) :
    Mapped f (twoReady s d d') (firstRuns s d d') :=
  mapped_step h.ok (mapped_start h (started_two hd)) (tame_dispatch _ _ _) (happens_firstRuns s d d')

/-- it stores 7 in the last page of its stack -/
def firstStored (s : Loader) (d d' x : Nat) : Typing :=
  { firstRuns s d d' with kernel := (firstRuns s d d').kernel.put x 7 }

theorem happens_firstStored {s : Loader} {d d' x : Nat}
    (hx : (firstRuns s d d').kernel.translate 0x0feff000 = some x) :
    (firstRuns s d d').Happens (.store 0x0feff000 7) (firstStored s d d' x) := ⟨Kernel.selector_user 4, x, hx, rfl⟩

/-- the interrupt of the timer in a process -/
abbrev tick : Action := .timer (Kernel.trapOf Kernel.ring3 0)

theorem tame_tick (l : Typing) : l.Tame (.kernel tick) := fits_of_not_keyboard fun _ h => by cases h

theorem tame_store (l : Typing) (byte : UInt8) : l.Tame (.store 0x0feff000 byte) := stack_own

/-- it is preempted, and the second process is dispatched -/
def secondRuns (s : Loader) (d d' x : Nat) : Typing :=
  ((firstStored s d d' x).next tick).next (.dispatch Kernel.ring0 0x202)

theorem happens_preempted (s : Loader) (d d' x : Nat) :
    (firstStored s d d' x).Happens (.kernel tick) ((firstStored s d d' x).next tick) := by
  have hring3 : Kernel.ring3.user := by decide
  exact step_next (fun _ h => by cases h) (iff_of_true hring3 (Kernel.selector_user 4)) rfl rfl

theorem happens_secondRuns (s : Loader) (d d' x : Nat) :
    ((firstStored s d d' x).next tick).Happens (.kernel (.dispatch Kernel.ring0 0x202)) (secondRuns s d d' x) := by
  have hring0 : ¬ Kernel.ring0.user := by decide
  exact step_next (fun _ h => by cases h) ⟨hring0, hring0⟩ rfl rfl

theorem secondRuns_user (s : Loader) (d d' x : Nat) : (secondRuns s d d' x).kernel.UserMode := Kernel.selector_user 6

theorem mapped_secondRuns {s : Loader} {f : Frames} {d d' x : Nat} (h : Shape s f) (hd : s.directories = [d, d'])
    (hx : (firstRuns s d d').kernel.translate 0x0feff000 = some x) :
    Mapped f (twoReady s d d') (firstStored s d d' x) ∧ Mapped f (twoReady s d d') (secondRuns s d d' x) := by
  have hstored := mapped_step h.ok (mapped_firstRuns h hd) (tame_store _ 7) (happens_firstStored hx)
  have hpreempted := mapped_step h.ok hstored (tame_tick _) (happens_preempted s d d' x)
  exact ⟨hstored, mapped_step h.ok hpreempted (tame_dispatch _ _ _) (happens_secondRuns s d d' x)⟩

theorem firstStored_path {s : Loader} {d d' x : Nat} (hx : (firstRuns s d d').kernel.translate 0x0feff000 = some x) :
    Path Happens (start (twoReady s d d')) [.kernel (.dispatch Kernel.ring0 0x202), .store 0x0feff000 7]
      (firstStored s d d' x) ∧
    Along Happens Tame (start (twoReady s d d')) [.kernel (.dispatch Kernel.ring0 0x202), .store 0x0feff000 7] :=
  ⟨⟨_, happens_firstRuns s d d', _, happens_firstStored hx, rfl⟩,
    tame_dispatch _ _ _, fun t _ => ⟨tame_store t 7, fun _ _ => trivial⟩⟩

/-- the two stacks are apart -/
theorem running_isolated_two : ∃ s d d' x l y,
    Loader.run (List.replicate 2 smallProgram) (Loader.boot fun _ => 0) = .ok ⟨⟩ s ∧
      Path Happens (start (twoReady s d d')) ([.kernel (.dispatch Kernel.ring0 0x202), .store 0x0feff000 7] ++
        [.kernel tick, .kernel (.dispatch Kernel.ring0 0x202)]) l ∧
      (firstRuns s d d').kernel.translate 0x0feff000 = some x ∧ l.kernel.translate 0x0feff000 = some y ∧
      x / 4096 ≠ y / 4096 := by
  obtain ⟨s, hs⟩ := smallPrograms_complete (n := 2) (by decide)
  obtain ⟨f, d, d', hshape, hd, hc, hc'⟩ := two_directories hs
  have h1 := mapped_firstRuns hshape hd
  obtain ⟨x, hx, -⟩ := stack_translated hshape.ok h1 (Kernel.selector_user 4) (p := 0) rfl hc
  obtain ⟨y, hy, -⟩ := stack_translated hshape.ok (mapped_secondRuns hshape hd hx).2 (secondRuns_user s d d' x) (p := 1)
    rfl hc'
  obtain ⟨hpath, htame⟩ := firstStored_path hx
  have hthen : Path Happens (firstStored s d d' x) [.kernel tick, .kernel (.dispatch Kernel.ring0 0x202)]
      (secondRuns s d d' x) := ⟨_, happens_preempted s d d' x, _, happens_secondRuns s d d' x, rfl⟩
  have htame' : Along Happens Tame (start (twoReady s d d')) ([.kernel (.dispatch Kernel.ring0 0x202),
      .store 0x0feff000 7] ++ [.kernel tick, .kernel (.dispatch Kernel.ring0 0x202)]) :=
    ⟨tame_dispatch _ _ _, fun t _ => ⟨tame_store t 7, fun u _ => ⟨tame_tick u, fun v _ =>
      ⟨tame_dispatch v _ _, fun _ _ => trivial⟩⟩⟩⟩
  have hall := path_append.mpr ⟨_, hpath, hthen⟩
  have hfirst : Path Happens (start (twoReady s d d')) [.kernel (.dispatch Kernel.ring0 0x202)] (firstRuns s d d') :=
    ⟨_, happens_firstRuns s d d', rfl⟩
  exact ⟨s, d, d', x, _, y, hs, hall, hx, hy, (running_isolated _ _ (accepted_replicate smallProgram_accepted 2) s hs _
    (started_two hd) _ _ _ _ hfirst hall ⟨tame_dispatch _ _ _, fun _ _ => trivial⟩ htame' 0 1 (Kernel.selector_user 4)
    (secondRuns_user s d d' x) rfl rfl).2 Nat.zero_ne_one _ _ stack_own stack_own x y hx hy⟩

/-- both processes store at the same address -/
theorem memory_kept_two : ∃ s d d' m,
    Loader.run (List.replicate 2 smallProgram) (Loader.boot fun _ => 0) = .ok ⟨⟩ s ∧
      Path Happens (start (twoReady s d d')) ([.kernel (.dispatch Kernel.ring0 0x202), .store 0x0feff000 7] ++
        [.kernel (.timer (Kernel.trapOf Kernel.ring3 0)), .kernel (.dispatch Kernel.ring0 0x202),
          .store 0x0feff000 9]) m ∧ m.kernel.processByte 0 0x0feff000 = 7 := by
  obtain ⟨s, hs⟩ := smallPrograms_complete (n := 2) (by decide)
  obtain ⟨f, d, d', hshape, hd, hc, hc'⟩ := two_directories hs
  have hf := hshape.ok
  -- the first process stores
  have h1 := mapped_firstRuns hshape hd
  obtain ⟨x, hx, hprivate⟩ := stack_translated hf h1 (Kernel.selector_user 4) (p := 0) rfl hc
  obtain ⟨hbefore, htame⟩ := firstStored_path hx
  obtain ⟨h2, h4⟩ := mapped_secondRuns hshape hd hx
  -- the second one runs and stores
  have hpreempted := happens_preempted s d d' x
  have hsecond := happens_secondRuns s d d' x
  have hcur : (secondRuns s d d' x).kernel.currentProcess = some 1 := rfl
  have huser := secondRuns_user s d d' x
  obtain ⟨y, hy, -⟩ := stack_translated hf h4 huser hcur hc'
  have hstored := happens_firstStored hx
  generalize firstStored s d d' x = l at *
  generalize secondRuns s d d' x = n at *
  have hthen : n.Happens (.store 0x0feff000 9) { n with kernel := n.kernel.put y 9 } := ⟨huser, y, hy, rfl⟩
  have hother : Along Happens (fun l e => l.Tame e ∧ ¬ l.Writes 0 e) l [.kernel tick,
      .kernel (.dispatch Kernel.ring0 0x202), .store 0x0feff000 9] := by
    refine ⟨⟨tame_tick l, not_writes fun _ h => by cases h⟩, fun t ht => ?_⟩
    obtain rfl := Step.unique hpreempted ht
    refine ⟨⟨tame_dispatch _ _ _, not_writes fun _ h => by cases h⟩, fun u hu => ?_⟩
    obtain rfl := Step.unique hsecond hu
    refine ⟨⟨tame_store n 9, fun hw => ?_⟩, fun _ _ => trivial⟩
    cases hcur.symm.trans hw
  have hafter : Path Happens l [.kernel tick, .kernel (.dispatch Kernel.ring0 0x202), .store 0x0feff000 9]
      { n with kernel := n.kernel.put y 9 } := ⟨_, hpreempted, _, hsecond, _, hthen, rfl⟩
  have hlt : 0 < (firstRuns s d d').kernel.created := h1.current 0 rfl
  have hlt' : 0 < l.kernel.created := by
    rw [h2.created, ← h1.created]
    exact hlt
  have hkept := (memory_kept (fun _ => 0) _ (accepted_replicate smallProgram_accepted 2) s hs _ (started_two hd) _ l
    hbefore htame 0 hlt' 0x0feff000 (private_kept hf h1 h2 hlt hprivate)).2 _ _ hafter hother
  refine ⟨s, d, d', _, hs, path_append.mpr ⟨l, hbefore, hafter⟩, hkept.trans ?_⟩
  exact stored_byte hf h1 rfl hprivate hstored

end Typing
end StarOS
