import StarOS.Exec.Content
import StarOS.Kernel.Answer
import StarOS.Kernel.OwnMemory

/-!
# The memory of a process is a flat array

No process has a frame at two pages of its own, so a store changes what it finds at one address only.

* `Frames.NoAlias`     no frame is mapped twice, outside `Kernel_maps`;
* `run_noAlias`        the loader leaves such frames, for all processes;
* `Typing.write`       the byte that an event stores for `p`, and its address;
* `Typing.Flat`        a run beside an array to which nothing happens but the writes of `p`;
* `flat_step`, `flat_memory`   **what `p` finds at its private addresses is what the array holds.**
-/

namespace StarOS
open Lib Frames

/-! ## no frame is mapped twice -/

def Frames.NoAlias (a : Frames) : Prop :=
  ∀ d ∈ a.directories, ∀ p q y, ¬ KernelPage p → ¬ KernelPage q → a.map d p = some y → a.map d q = some y → p = q

/-- the directory of the last process is filled, those of the others stay -/
theorem noAlias_load {a b : Frames} {s : Loader} {f : File} {l : List Request} (h : a.Ok) (ha : a.NoAlias)
    (hl : Loaded f (frameAt a.uses.length) a b) (hF : Filled (frameAt a.uses.length) l s b) : b.NoAlias := by
  intro d hd p q y hp hq hpy hqy
  rw [hl.directories] at hd
  rcases List.mem_append.mp hd with hd | hd
  · obtain ⟨hat, hk⟩ := h.processes d hd
    have hold : ∀ p, b.map d p = a.map d p := fun p => hl.grows.others d p hat.fresh hk
    rw [hold] at hpy hqy
    exact ha d hd p q y hp hq hpy hqy
  · rw [List.mem_singleton.mp hd] at hpy hqy
    exact hF.apart p q y hp hq hpy hqy

theorem run_noAlias (mem : Mem) {files : List File} (hfiles : ∀ f ∈ files, Accepted f) {s : Loader}
    (hs : Loader.run files (Loader.boot mem) = .ok ⟨⟩ s) :
    ∃ a, Shape s a ∧ Frames.run files Frames.boot = .ok ⟨⟩ a ∧ a.NoAlias := by
  induction files using List.reverseRecOn generalizing s with
  | nil =>
    obtain ⟨a, ha, hshape⟩ := alike_ok (alike_run mem hfiles) hs
    have hnone : a.directories = [] := List.length_eq_zero_iff.mp ((run_ends hfiles).of_ok ha).loaded
    refine ⟨a, hshape, ha, fun d hd => ?_⟩
    rw [hnone] at hd
    cases hd
  | append_singleton files f ih =>
    have hold : ∀ f ∈ files, Accepted f := fun g hg => hfiles g (List.mem_append_left _ hg)
    have hf : Accepted f := hfiles f (List.mem_append_right _ (List.mem_singleton_self f))
    rw [Loader.run_snoc] at hs
    obtain ⟨_, s₀, h₀, hs⟩ := of_bind hs
    obtain ⟨a, hshape₀, ha, halias⟩ := ih hold h₀
    have he := ((run_ends hold).of_ok ha).enabled
    obtain ⟨b, hb, hshape, -, hF⟩ := load_filled hshape₀ he hf hs
    refine ⟨b, hshape, ?_, noAlias_load hshape₀.ok halias ((load_ends hshape₀.ok he hf).of_ok hb) hF⟩
    rw [Frames.run_snoc, bind_ok ha, hb]

namespace Typing

/-! ## one event -/

/-- the byte that the event stores for `p`, and its address -/
def write (l : Typing) (p : Nat) : Event → Option (UInt32 × UInt8)
  | .store address byte => if l.kernel.currentProcess = some p then some (address, byte) else none
  | .kernel (.keyboard x) => if l.kernel.processWaitingGets = some p then
      (ps2KeyboardInterrupt l.kernel.keyboard x.data).toOption.bind Response.store else none
  | .kernel _ => none

section
variable {f : Frames} {k : Kernel} {l m : Typing} {e : Event} {p : Nat}

/-- the directory of a process is one of those that the loader filled -/
theorem directory_mem {s : Loader} (h : Shape s f) (hk : Started s k) (hl : Mapped f k l) (hp : p < l.kernel.created) :
    l.kernel.directory p ∈ f.directories := by
  rw [hl.directory, ← h.directories, ← hk.directories]
  rw [hl.created] at hp
  exact List.mem_map_of_mem (List.mem_range.mpr hp)

/-- a process finds different private addresses at different places -/
theorem private_inj (hf : f.Ok) (halias : f.NoAlias) (h : Mapped f k l) (hp : p < l.kernel.created)
    (hd : l.kernel.directory p ∈ f.directories) {a b : UInt32} (ha : l.kernel.Private p a) (hb : l.kernel.Private p b)
    {x : Nat} (hx : l.kernel.processWalk p a = some x) (hx' : l.kernel.processWalk p b = some x) : a = b := by
  unfold Kernel.processWalk at hx hx'
  have hholds := h.inv.tables.holds p hp
  rw [hholds.walk hf a.toNat_lt] at hx
  rw [hholds.walk hf b.toNat_lt] at hx'
  obtain ⟨y, hy, hyx⟩ := Option.map_eq_some_iff.mp hx
  obtain ⟨z, hz, hzx⟩ := Option.map_eq_some_iff.mp hx'
  have hymod := (hf.physical _ _ _ hy).1
  have hzmod := (hf.physical _ _ _ hz).1
  have hyz : y = z := by omega
  subst hyz
  have hpage := halias _ hd _ _ _ ha.2 hb.2 hy hz
  exact UInt32.toNat_inj.mp (by omega)

theorem write_none (hs : l.Happens e m) (hno : ¬ l.Writes p e) : l.write p e = none := by
  cases e with
  | store address byte => exact if_neg hno
  | kernel a =>
    cases a with
    | keyboard x =>
      rw [write]
      by_cases hw : l.kernel.processWaitingGets = some p
      · rw [if_pos hw]
        obtain ⟨-, t, hst, -⟩ := hs
        cases hr : ps2KeyboardInterrupt l.kernel.keyboard x.data with
        | error e => rfl
        | ok r =>
          show r.store = none
          by_contra hne
          obtain ⟨u, hu⟩ := Option.ne_none_iff_exists'.mp hne
          exact hno ⟨⟨u.2, x, r, u.1, rfl, hst.1, hr, hu⟩, hw⟩
      · exact if_neg hw
    | execv => rfl
    | dispatch => rfl
    | timer => rfl
    | syscall => rfl

/-- an event that writes for `p` stores one byte, at a private address of `p` -/
theorem write_some (hf : f.Ok) (h : Mapped f k l) (htame : l.Tame e) (hs : l.Happens e m) (hw : l.Writes p e) :
    ∃ b byte z, l.write p e = some (b, byte) ∧ l.kernel.Private p b ∧ l.kernel.processWalk p b = some z ∧
      m.kernel.paging.mem = writeByte l.kernel.paging.mem z byte := by
  cases e with
  | store address byte =>
    have hw : l.kernel.currentProcess = some p := hw
    obtain ⟨hu, z, hz, rfl⟩ := hs
    obtain ⟨q, -, hq, -, hwalk, -⟩ := store_page hf h htame hu hz
    obtain rfl := Option.some.inj (hw.symm.trans hq)
    exact ⟨address, byte, z, if_pos hw, ⟨Option.isSome_iff_exists.mpr ⟨z, hwalk⟩, htame⟩, hwalk, rfl⟩
  | kernel a =>
    obtain ⟨⟨byte, hacc⟩, hwaiting⟩ := hw
    obtain ⟨ha, t, hst, hdeliver, -, -⟩ := hs
    rcases step_cases hf h.inv htame hst ha with
      ⟨-, hno⟩ | ⟨q, req, y, z, byte', hq, hreq, -, hz, -, -, -, hpaging, hput, hbyte⟩
    · exact absurd hacc (hno byte)
    · obtain rfl := Option.some.inj (hwaiting.symm.trans hq)
      obtain rfl := hbyte byte hacc
      have hready := htame byte hacc p req hreq
      obtain ⟨x, r, address, rfl, -, hr, hstore⟩ := hacc
      -- the character goes where the process has asked for it
      obtain ⟨hen, haddress⟩ := (interrupt_store hr).2 address byte hstore
      obtain ⟨q, req', hq', hreq', hbuf, hcount⟩ := h.inv.registered hen
      obtain rfl := Option.some.inj (hwaiting.symm.trans hq')
      obtain rfl := Option.some.inj (hreq.symm.trans hreq')
      have hnext : req.next = address := by rw [Asked.next, hbuf, hcount, haddress]
      rw [← hnext] at hstore
      refine ⟨req.next, byte, z, ?_, ⟨hready.mapped, hready.own⟩, hz, ?_⟩
      · rw [write, if_pos hwaiting, hr]
        exact hstore
      · rw [← Except.ok.inj (hput.symm.trans hdeliver), ← hpaging]
        rfl

/-- what `p` finds at its private addresses changes by its writes alone -/
theorem flat_step (hf : f.Ok) (halias : f.NoAlias) (h : Mapped f k l) (hp : p < l.kernel.created)
    (hd : l.kernel.directory p ∈ f.directories) (htame : l.Tame e) (hs : l.Happens e m) {a : UInt32}
    (ha : l.kernel.Private p a) :
    m.kernel.processByte p a = written (l.kernel.processByte p) (l.write p e).toList a := by
  by_cases hw : l.Writes p e
  · obtain ⟨b, byte, z, hwrite, hb, hz, hmem⟩ := write_some hf h htame hs hw
    obtain ⟨x, hx⟩ := Option.isSome_iff_exists.mp ha.1
    have hwalk := (walk_kept hf h (mapped_step hf h htame hs) hp a).trans hx
    rw [hwrite, Kernel.processByte, hwalk, hmem]
    show writeByte l.kernel.paging.mem z byte x = Function.update (l.kernel.processByte p) b byte a
    by_cases hab : a = b
    · subst hab
      rw [Function.update_self, Option.some.inj (hx.symm.trans hz)]
      exact if_pos rfl
    · have hxz : x ≠ z := by
        rintro rfl
        exact hab (private_inj hf halias h hp hd ha hb hx hz)
      rw [Function.update_of_ne hab, writeByte, if_neg hxz, Kernel.processByte, hx]
      rfl
  · rw [write_none hs hw]
    exact kept_step hf h htame hs hw hp ha

end

/-! ## a run -/

/-- what is at an address after some stores depends on what was there -/
theorem written_congr {memory memory' : UInt32 → UInt8} {a : UInt32} (h : memory a = memory' a)
    (ws : List (UInt32 × UInt8)) : written memory ws a = written memory' ws a := by
  induction ws generalizing memory memory' with
  | nil => exact h
  | cons u ws ih =>
    refine ih ?_
    show Function.update memory u.1 u.2 a = Function.update memory' u.1 u.2 a
    by_cases hu : a = u.1
    · rw [hu, Function.update_self, Function.update_self]
    · rw [Function.update_of_ne hu, Function.update_of_ne hu]
      exact h

/-- a state, and an array beside it -/
structure Flat where
  typing : Typing
  memory : UInt32 → UInt8

/-- the array takes the writes of `p` -/
def Flat.Step (p : Nat) (w : Flat) (e : Event) (w' : Flat) : Prop :=
  w.typing.Happens e w'.typing ∧ w'.memory = written w.memory (w.typing.write p e).toList

section
variable {f : Frames} {k : Kernel} {l m : Typing} {p : Nat}

/-- every run has its array -/
theorem flat_exists (p : Nat) {es : List Event} (hs : Path Happens l es m) (memory : UInt32 → UInt8) :
    ∃ memory', Path (Flat.Step p) ⟨l, memory⟩ es ⟨m, memory'⟩ := by
  induction es generalizing l memory with
  | nil =>
    obtain rfl := path_nil.mp hs
    exact ⟨memory, rfl⟩
  | cons e es ih =>
    obtain ⟨n, hn, hs⟩ := hs
    obtain ⟨memory', h⟩ := ih hs (written memory (l.write p e).toList)
    exact ⟨memory', ⟨n, _⟩, ⟨hn, rfl⟩, h⟩

theorem flat_run {es : List Event} {w w' : Flat} (hf : f.Ok) (halias : f.NoAlias) (h : Mapped f k w.typing)
    (hp : p < w.typing.kernel.created) (hd : w.typing.kernel.directory p ∈ f.directories)
    (hs : Path (Flat.Step p) w es w') (htame : Along Happens Tame w.typing es)
    (hw : ∀ a, w.typing.kernel.Private p a → w.typing.kernel.processByte p a = w.memory a) :
    ∀ a, w.typing.kernel.Private p a → w'.typing.kernel.processByte p a = w'.memory a := by
  induction es generalizing w with
  | nil =>
    obtain rfl := path_nil.mp hs
    exact hw
  | cons e es ih =>
    obtain ⟨u, ⟨hu, hmemory⟩, hs⟩ := hs
    have hmapped := mapped_step hf h htame.1 hu
    have hp' : p < u.typing.kernel.created := by
      rw [hmapped.created, ← h.created]
      exact hp
    have hd' : u.typing.kernel.directory p ∈ f.directories := by
      rw [hmapped.directory, ← h.directory]
      exact hd
    have hpriv : ∀ {a}, w.typing.kernel.Private p a → u.typing.kernel.Private p a := fun ha =>
      private_kept hf h hmapped hp ha
    have hback : ∀ {a}, u.typing.kernel.Private p a → w.typing.kernel.Private p a := fun ha =>
      private_kept hf hmapped h hp' ha
    intro a ha
    refine ih hmapped hp' hd' hs (htame.2 _ hu) (fun b hb => ?_) a (hpriv ha)
    rw [flat_step hf halias h hp hd htame.1 hu (hback hb), hmemory]
    exact written_congr (hw b (hback hb)) _

end

/-- In every run after the programs are loaded, with stores outside `Kernel_maps` and typed characters that find the
process that asked: beside every run that follows goes one of a flat array, to which nothing happens but the stores
of `p` and the characters typed for it, and at its private addresses `p` finds what the array holds. -/
theorem flat_memory (mem : Mem) (files : List File) (hfiles : ∀ f ∈ files, StarOS.Accepted f) (s : Loader)
    (hs : Loader.run files (Loader.boot mem) = .ok ⟨⟩ s) (k : Kernel) (hk : Started s k) (es es' : List Event)
    (l m : Typing) (hl : Path Happens (start k) es l) (hm : Path Happens l es' m)
    (htame : Along Happens Tame (start k) es) (htame' : Along Happens Tame l es') (p : Nat)
    (hp : p < l.kernel.created) :
    ∃ memory, Path (Flat.Step p) ⟨l, l.kernel.processByte p⟩ es' ⟨m, memory⟩ ∧
      ∀ a, l.kernel.Private p a → m.kernel.processByte p a = memory a := by
  obtain ⟨f, hshape, -, halias⟩ := run_noAlias mem hfiles hs
  have h := mapped_run hshape.ok (mapped_start hshape hk) hl htame
  have hd := directory_mem hshape hk h hp
  obtain ⟨memory, hflat⟩ := flat_exists p hm (l.kernel.processByte p)
  refine ⟨memory, hflat, ?_⟩
  have hrun := flat_run (w := ⟨l, l.kernel.processByte p⟩) hshape.ok halias h hp hd hflat htame'
  exact hrun fun a _ => Eq.refl (l.kernel.processByte p a)

/-- the first of two processes stores -/
theorem flat_memory_two : ∃ s d d' m memory,
    Loader.run (List.replicate 2 smallProgram) (Loader.boot fun _ => 0) = .ok ⟨⟩ s ∧
      Path (Flat.Step 0) ⟨firstRuns s d d', (firstRuns s d d').kernel.processByte 0⟩ [.store 0x0feff000 7]
        ⟨m, memory⟩ ∧ m.kernel.processByte 0 0x0feff000 = memory 0x0feff000 := by
  obtain ⟨s, hs⟩ := smallPrograms_complete (n := 2) (by decide)
  obtain ⟨f, d, d', hshape, hd, hc, -⟩ := two_directories hs
  have h := mapped_firstRuns hshape hd
  obtain ⟨x, hx, hprivate⟩ := stack_translated hshape.ok h (Kernel.selector_user 4) (p := 0) rfl hc
  obtain ⟨memory, hflat, hfound⟩ := flat_memory (fun _ => 0) _ (accepted_replicate smallProgram_accepted 2) s hs _
    (started_two hd) [.kernel (.dispatch Kernel.ring0 0x202)] [.store 0x0feff000 7] _ _
    ⟨_, happens_firstRuns s d d', rfl⟩ ⟨_, happens_firstStored hx, rfl⟩
    ⟨tame_dispatch _ _ _, fun _ _ => trivial⟩ ⟨stack_own, fun _ _ => trivial⟩ 0 (h.current 0 rfl)
  exact ⟨s, d, d', _, memory, hs, hflat, hfound _ hprivate⟩

end Typing
end StarOS
