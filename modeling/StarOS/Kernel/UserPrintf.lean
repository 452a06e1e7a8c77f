import StarOS.Kernel.OwnMemory
import StarOS.Kernel.Printf
import StarOS.Print

/-!
# `printf` of a process, from the C library to the screen (`printf.cpp` and `string_utils.cpp` of the C library)

The C library hands the kernel the address and the length of the format and the place of the other arguments on
its stack.  The kernel reads all of it, and the strings that `%s` points to, through the directory of the process,
which is still loaded; the two copies into its own directory do not change that.

* `strlen`, `libcPrintf`   the C library up to `int $32`;
* `kernelByte`         the byte the kernel finds there;
* `kernelByte_copied`  after the two copies they agree, outside the maps of the kernel;
* `user_printf_shows`  **a call whose format, strings and stack are mapped puts the text on the screen, behind what
                       was there, and goes on with all registers.**
-/

namespace StarOS
open Lib

/-! ## the C library -/

/-- `strlen`, with the loop at `str` and `count` so far; `none`: the fuel does not suffice -/
def strlen (mem : UInt32 → UInt8) : Nat → UInt32 → UInt32 → Option UInt32
  | 0, _, _ => none
  | fuel + 1, str, count => if mem str ≠ 0 then strlen mem fuel (str + 1) (count + 1) else some count

/-- the registers at `int $32` in `printf` of the C library; `format` is its first argument, on the stack at
`addrOfLastArg` -/
def libcPrintf (r : Regs) (format size addrOfLastArg : UInt32) : Regs :=
  { r with ebx := format, ecx := size, edx := addrOfLastArg, esi := 4, eax := 3 }

theorem strlen_eq {mem : UInt32 → UInt8} {str : UInt32} {cs : List UInt8} (h : StringAt mem str cs) (count : UInt32)
    {fuel : Nat} (hfuel : cs.length < fuel) : strlen mem fuel str count = some (count + UInt32.ofNat cs.length) := by
  induction cs generalizing str count fuel with
  | nil =>
    obtain ⟨fuel, rfl⟩ := Nat.exists_eq_add_one.mpr hfuel
    have h0 : mem str = 0 := h
    rw [strlen, if_neg (not_not_intro h0)]
    exact congrArg some (UInt32.add_zero count).symm
  | cons c cs ih =>
    obtain ⟨fuel, rfl⟩ := Nat.exists_eq_add_one.mpr (Nat.zero_lt_of_lt hfuel)
    obtain ⟨hc0, hc, hrest⟩ := h
    rw [List.length_cons] at hfuel ⊢
    have e : count + 1 + UInt32.ofNat cs.length = count + UInt32.ofNat (cs.length + 1) := by
      rw [UInt32.ofNat_add, UInt32.add_assoc, UInt32.add_comm 1]
      rfl
    rw [strlen, if_pos (by rwa [hc]), ih hrest _ (by omega), e]

theorem strlen_mono {mem : UInt32 → UInt8} {fuel fuel' : Nat} {str count n : UInt32}
    (h : strlen mem fuel str count = some n) (hf : fuel ≤ fuel') : strlen mem fuel' str count = some n := by
  induction fuel generalizing fuel' str count with
  | zero => cases h
  | succ fuel ih =>
    obtain ⟨fuel', rfl⟩ := Nat.exists_eq_add_one.mpr (Nat.zero_lt_of_lt hf)
    rw [strlen] at h ⊢
    by_cases hc : mem str ≠ 0
    · rw [if_pos hc] at h ⊢
      exact ih h (Nat.le_of_succ_le_succ hf)
    · rw [if_neg hc] at h ⊢
      exact h

/-! ## strings and words in two memories that agree -/

section
variable {mem mem' : UInt32 → UInt8} {V : UInt32 → Prop}

/-- the bytes of a string, its null byte included -/
def StringIn (V : UInt32 → Prop) (p : UInt32) (cs : List UInt8) : Prop := ∀ i ≤ cs.length, V (p + UInt32.ofNat i)

/-- the bytes of a word -/
def WordIn (V : UInt32 → Prop) (p : UInt32) : Prop := ∀ i < 4, V (UInt32.ofNat (p.toNat + i))

/-- the bytes of the strings that a format asks for, `args` being its arguments from number `arg` on -/
def StringsIn (V : UInt32 → Prop) (args : Nat → UInt32) : Nat → List Piece → Prop
  | _, [] => True
  | arg, .literal _ :: ps => StringsIn V args arg ps
  | arg, .string s :: ps => StringIn V (args arg) s ∧ StringsIn V args (arg + 1) ps
  | arg, .word _ :: ps => StringsIn V args (arg + 1) ps

theorem StringIn.first {p : UInt32} {cs : List UInt8} (h : StringIn V p cs) : V p := by
  have hv := h 0 (Nat.zero_le _)
  rwa [charAt_start] at hv

theorem StringIn.rest {p : UInt32} {c : UInt8} {cs : List UInt8} (h : StringIn V p (c :: cs)) : StringIn V (p + 1) cs := by
  intro i hi
  have hv := h (i + 1) (Nat.succ_le_succ hi)
  have e : p + UInt32.ofNat (i + 1) = p + 1 + UInt32.ofNat i := by
    rw [UInt32.ofNat_add, UInt32.add_assoc, UInt32.add_comm 1]
    rfl
  rwa [e] at hv

theorem StringAt.transfer (hagree : ∀ a, V a → mem' a = mem a) {p : UInt32} {cs : List UInt8} (h : StringAt mem p cs)
    (hin : StringIn V p cs) : StringAt mem' p cs := by
  induction cs generalizing p with
  | nil => exact (hagree p hin.first).trans h
  | cons c cs ih =>
    obtain ⟨hc0, hc, hrest⟩ := h
    exact ⟨hc0, (hagree p hin.first).trans hc, ih hrest hin.rest⟩

theorem wordAt_transfer (hagree : ∀ a, V a → mem' a = mem a) {p : UInt32} (hin : WordIn V p) :
    wordAt mem' p = wordAt mem p := by
  unfold wordAt
  refine congrArg UInt32.ofNat (read32_congr fun x hx hx' => hagree _ ?_)
  have hv := hin (x - p.toNat) (by omega)
  have e : p.toNat + (x - p.toNat) = x := by omega
  rwa [e] at hv

theorem arguments_transfer (hagree : ∀ a, V a → mem' a = mem a) {args args' : Nat → UInt32} {arg : Nat}
    {ps : List Piece} (hargs : ∀ n, arg ≤ n → n < arg + argumentCount ps → args' n = args n)
    (h : ArgumentsAt mem args arg ps) (hin : StringsIn V args arg ps) : ArgumentsAt mem' args' arg ps := by
  induction ps generalizing arg with
  | nil => trivial
  | cons piece ps ih =>
    cases piece with
    | literal c => exact ih hargs h hin
    | string s =>
      rw [argumentCount] at hargs
      obtain ⟨hs, hrest⟩ := h
      obtain ⟨hsin, hin⟩ := hin
      refine ⟨?_, ih (fun n hn hlt => hargs n (by omega) (by omega)) hrest hin⟩
      rw [hargs arg (Nat.le_refl _) (by omega)]
      exact hs.transfer hagree hsin
    | word w =>
      rw [argumentCount] at hargs
      obtain ⟨hw, hrest⟩ := h
      refine ⟨?_, ih (fun n hn hlt => hargs n (by omega) (by omega)) hrest hin⟩
      rw [hargs arg (Nat.le_refl _) (by omega)]
      exact hw

end

/-! ## the two views of the memory -/

namespace Kernel

/-- the byte that the kernel finds -/
def kernelByte (s : Kernel) (a : UInt32) : UInt8 := (s.translate a).elim 0 s.paging.mem

/-- copies of the 4MB slots of `starts`, one after the other -/
def copySlots (s : Kernel) (p : Nat) (starts : List UInt32) : Kernel :=
  { s with paging := starts.foldl (copyEntry s.kernelPagingDirectory (s.directory p)) s.paging }

section
variable {f : Frames} {s : Kernel} {c : Nat → Option Nat} {p : Nat}

/-- the copies do not change what the process finds -/
theorem copySlots_walk (hf : f.Ok) (h : Tables f s s.paging c) (hp : p < s.created) (starts : List UInt32)
    (a : UInt32) : (s.copySlots p starts).processWalk p a = s.processWalk p a :=
  (((h.copies hf hp starts).holds p hp).walk hf a.toNat_lt).trans ((h.holds p hp).walk hf a.toNat_lt).symm

/-- a private address is in a page of the process, which is not the directory of the kernel -/
theorem Private.apart (hf : f.Ok) (h : Tables f s s.paging c) (hp : p < s.created) {a : UInt32} (ha : s.Private p a) :
    ∃ x, s.processWalk p a = some x ∧ (x < s.kernelPagingDirectory ∨ s.kernelPagingDirectory + 4096 ≤ x) := by
  obtain ⟨hmapped, hpage⟩ := ha
  obtain ⟨x, hx⟩ := Option.isSome_iff_exists.mp hmapped
  obtain ⟨-, hne⟩ := h.process p hp
  have hwalk := (h.holds p hp).walk hf a.toNat_lt
  obtain ⟨y, hy, rfl⟩ := Option.map_eq_some_iff.mp (hwalk.symm.trans hx)
  have hown := (hf.own _ _ y hne hy).resolve_left fun e => hpage e.1
  have hkernel : y ≠ Frames.kernelDirectory := hown.ne hf.kernel (by intro e; cases e)
  have haligned := hown.aligned
  have hkaligned := hf.kernel.aligned
  refine ⟨_, hx, ?_⟩
  rw [h.kernel]
  omega

/-- with the directory of the process loaded, the kernel finds what the process finds -/
theorem kernelByte_copied (hf : f.Ok) (h : Tables f s s.paging c) (hp : p < s.created) (hcr3 : s.cr3 = s.directory p)
    (starts : List UInt32) {a : UInt32} (hprivate : s.Private p a) :
    (s.copySlots p starts).kernelByte a = s.processByte p a := by
  obtain ⟨x, hx, hapart⟩ := hprivate.apart hf h hp
  have hloaded : (s.copySlots p starts).translate a = (s.copySlots p starts).processWalk p a :=
    congrArg (checkAddressMapping _ _) hcr3
  unfold kernelByte processByte
  rw [hloaded, copySlots_walk hf h hp starts a, hx]
  exact foldl_copyEntry_mem _ _ starts s.paging hapart

end

/-! ## the call -/

/-- `SYSCALL_PRINTF` up to the call of `printf`, and the way back to the process -/
theorem trap_printf {s : Kernel} {p : Nat} {x : Trap} (hp : s.currentProcess = some p) (heax : x.regs.eax = 3)
    (hcount : x.regs.ecx.toNat ≤ 4194304) :
    s.trap 32 x = .ok { s.copySlots p [x.regs.ebx, x.regs.edx] with cpu := trapret (x.frame 32) } := by
  have h3 : (x.frame 32).eax.toNat = 3 := congrArg UInt32.toNat heax
  have hfirst := copyProcessMapping_ok hp x.regs.ebx hcount
  have hcur : (s.copySlots p [x.regs.ebx]).currentProcess = some p := hp
  have hsize : (1024 * 4 : UInt32).toNat ≤ 4194304 := by decide
  have hsecond := copyProcessMapping_ok hcur x.regs.edx hsize
  rw [trap_syscall, systemEntry, h3]
  show Except.bind (Except.bind (copyProcessMapping s x.regs.ebx x.regs.ecx) _) _ = _
  rw [hfirst]
  show Except.bind (Except.bind (copyProcessMapping (s.copySlots p [x.regs.ebx]) x.regs.edx (1024 * 4)) _) _ = _
  rw [hsecond]
  rfl

theorem trapret_user {x : Trap} {n : UInt32} (hu : x.regs.user) : trapret (x.frame n) = x.regs := by
  have hcs : x.regs.cs &&& 3 = 3 := hu
  unfold trapret Trap.frame
  dsimp only
  rw [if_pos hcs, if_pos hcs, if_pos hu, if_pos hu]

/-- argument `k` behind the format, which is on the stack at `args` -/
def userArg (s : Kernel) (p : Nat) (args : UInt32) (k : Nat) : UInt32 :=
  wordAt (s.processByte p) (args + 4 + 4 * UInt32.ofNat k)

/-- the process has the format of the pieces at `format`, and their arguments behind `args` -/
structure Prepared (s : Kernel) (p : Nat) (format args : UInt32) (ps : List Piece) : Prop where
  formatAt : StringAt (s.processByte p) format (formatText ps)
  formatIn : StringIn (s.Private p) format (formatText ps)
  short : (formatText ps).length ≤ 4194304
  argumentsAt : ArgumentsAt (s.processByte p) (s.userArg p args) 0 ps
  stringsIn : StringsIn (s.Private p) (s.userArg p args) 0 ps
  /-- the kernel pushes ten words of the stack, whatever the format is -/
  wordsIn : ∀ k < 10, WordIn (s.Private p) (args + 4 + 4 * UInt32.ofNat k)
  few : argumentCount ps ≤ 10
  literal : ∀ c, .literal c ∈ ps → c ≠ 0x25
  plain : Plain ps

/-- `printf` in the kernel prints the pieces, and each argument is taken once, whatever is on the kernel's stack -/
theorem printf_prepared {f : Frames} {s : Kernel} {c : Nat → Option Nat} {p : Nat} (hf : f.Ok)
    (h : Tables f s s.paging c) (hp : p < s.created) (hcr3 : s.cr3 = s.directory p) {format args : UInt32}
    {ps : List Piece} (hprep : s.Prepared p format args ps)
    (tf : TrapFrame) (hedx : tf.edx = args) (hesi : tf.esi = 4) :
    ∃ n out calls, Verbatim ps out ∧ ∀ stack inner fuel, n ≤ fuel →
      printf (s.copySlots p [format, args]).kernelByte
        (vaWords (s.copySlots p [format, args]).kernelByte tf stack inner) fuel format =
        some (.ok ⟨out, (List.range' 0 (argumentCount ps)).map (0, ·), calls⟩) := by
  have hagree : ∀ a, s.Private p a → (s.copySlots p [format, args]).kernelByte a = s.processByte p a :=
    fun a ha => kernelByte_copied hf h hp hcr3 _ ha
  have hwords : ∀ k, 0 ≤ k → k < 0 + argumentCount ps →
      ellipses (s.copySlots p [format, args]).kernelByte tf k = s.userArg p args k := by
    intro k _ hk
    have hfew := hprep.few
    rw [ellipses, hedx, hesi]
    exact wordAt_transfer hagree (hprep.wordsIn k (by omega))
  have hformat := hprep.formatAt.transfer hagree hprep.formatIn
  have hargs := arguments_transfer hagree hwords hprep.argumentsAt hprep.stringsIn
  have hfit := fit_pieces hargs (by rw [Nat.zero_add]; exact hprep.few) hprep.literal hprep.plain
  -- with zeros on the stack, and then with anything
  have hwords' : ∀ k, 0 ≤ k → k < 0 + argumentCount ps → vaWords (s.copySlots p [format, args]).kernelByte tf
      (fun _ => 0) (fun _ _ => 0) 0 k = s.userArg p args k := by
    intro k hk hk'
    have hfew := hprep.few
    exact (vaWords_of_lt (by omega)).trans (hwords k hk hk')
  have hargs' := arguments_transfer hagree hwords' hprep.argumentsAt hprep.stringsIn
  obtain ⟨n, outs, calls, hshows, hrun⟩ := printfFrom_pieces ⟨[], [], 1⟩ hformat hargs' hprep.literal hprep.plain
  refine ⟨n, outs.flatten, calls, ⟨outs, hshows, rfl⟩, fun stack inner fuel hn => ?_⟩
  rw [printf_of_fit hformat hfit (fun _ => 0) stack (fun _ _ => 0) inner]
  exact hrun fuel hn

theorem verbatim_printable {ps : List Piece} {out : List UInt8} (hplain : Plain ps) (h : Verbatim ps out) :
    ∀ c ∈ out, isPrintable c = true := by
  obtain ⟨outs, hall, rfl⟩ := h
  induction hall with
  | nil => exact fun c hc => absurd hc List.not_mem_nil
  | @cons piece out ps outs hp _ ih =>
    intro c hc
    rw [List.flatten_cons] at hc
    rcases List.mem_append.mp hc with hc | hc
    · cases piece with
      | literal d =>
        obtain rfl : out = [d] := hp
        rw [List.mem_singleton.mp hc]
        exact hplain.literal d List.mem_cons_self
      | string cs =>
        obtain rfl : out = cs := hp
        exact (hplain.string _ List.mem_cons_self).1 c hc
      | word w =>
        obtain ⟨-, hdigit, -⟩ := hp
        have hd := hdigit c hc
        unfold IsHexDigit at hd
        unfold isPrintable
        rw [Bool.or_eq_true, Bool.and_eq_true, decide_eq_true_iff, decide_eq_true_iff]
        exact .inr ⟨by omega, by omega⟩
    · exact ih hplain.tail c hc

/-- In every state that is reached after the programs are loaded, with stores of the processes outside `Kernel_maps`
and with typed characters that find the process that asked, the process that runs calls `printf` of the C library
with a format and arguments that are prepared: whatever is on the kernel's stack, the text is printed piece by piece
behind what the screen shows, and the process goes on with the registers it had. -/
theorem user_printf_shows (mem : Mem) (files : List File) (hfiles : ∀ f ∈ files, Accepted f) (l : Loader)
    (hl : Loader.run files (Loader.boot mem) = .ok ⟨⟩ l) (k : Kernel) (hk : Started l k) (es : List Typing.Event)
    (s : Typing) (hs : Path Typing.Happens (Typing.start k) es s)
    (htame : Along Typing.Happens Typing.Tame (Typing.start k) es) (p : Nat) (hp : s.kernel.currentProcess = some p)
    (format args : UInt32) (ps : List Piece) (hprep : s.kernel.Prepared p format args ps) (r : Regs) (size : UInt32)
    (fuel : Nat) (hsize : strlen (s.kernel.processByte p) fuel format 0 = some size) (x : Trap)
    (hx : x.regs = libcPrintf r format size args) (hen : s.kernel.Enabled (.syscall x)) :
    ∃ t out, s.kernel.step (.syscall x) = .ok t ∧ t.cpu = x.regs ∧ Verbatim ps out ∧
      (∃ n calls, ∀ stack inner fuel, n ≤ fuel →
        printf t.kernelByte (vaWords t.kernelByte (x.frame 32) stack inner) fuel format =
          some (.ok ⟨out, (List.range' 0 (argumentCount ps)).map (0, ·), calls⟩)) ∧
      ∀ c text, Shows c text → ∃ c' calls, printAll c out = .ok (c', calls) ∧ Shows c' (out.foldl Text.put text) := by
  obtain ⟨f, hshape, -⟩ := run_ok mem hfiles hl
  have h := Typing.mapped_run hshape.ok (Typing.mapped_start hshape hk) hs htame
  have htables := h.inv.tables
  have hlt := h.current p hp
  have hcr3 := h.space.current hen.2 hp
  have hebx : x.regs.ebx = format := by rw [hx]; rfl
  have hedx : x.regs.edx = args := by rw [hx]; rfl
  have hecx : x.regs.ecx = size := by rw [hx]; rfl
  -- the size is the length of the format
  have hlen : size.toNat ≤ 4194304 := by
    have hlong := strlen_eq hprep.formatAt 0 (Nat.lt_succ_self (formatText ps).length)
    rw [UInt32.zero_add] at hlong
    have e : size = UInt32.ofNat (formatText ps).length := by
      have hmax := strlen_mono hsize (Nat.le_max_left fuel ((formatText ps).length + 1))
      rw [strlen_mono hlong (Nat.le_max_right fuel ((formatText ps).length + 1))] at hmax
      exact (Option.some.inj hmax).symm
    rw [e, UInt32.toNat_ofNat']
    exact Nat.le_trans (Nat.mod_le _ _) hprep.short
  obtain ⟨n, out, calls, hverbatim, hrun⟩ := printf_prepared hshape.ok htables hlt hcr3 hprep (x.frame 32) hedx
    (congrArg Regs.esi hx)
  have htrap := trap_printf hp (congrArg Regs.eax hx) (by rwa [hecx])
  rw [hebx, hedx] at htrap
  refine ⟨_, out, htrap, trapret_user hen.1, hverbatim, ⟨n, calls, hrun⟩, fun c text hc => ?_⟩
  obtain ⟨c', calls', hprint, hshows, -⟩ := shows_printAll hc (verbatim_printable hprep.plain hverbatim)
  exact ⟨c', calls', hprint, hshows⟩

/-! ## a process that greets -/

/-- a program whose four bytes are `hi` and two null bytes -/
def greeting : File := smallProgram.take 84 ++ [0x68, 0x69, 0, 0]

theorem greeting_accepted : Accepted greeting := by
  rw [accepted_iff]
  exact ⟨by decide, by decide +kernel, by decide +kernel⟩

/-- `kernel_main` after the loader, with one process -/
def greetsLoaded (s : Loader) (d : Nat) : Kernel :=
  let b : BootState := { smallMachine with paging := s.paging, kernelPagingDirectory := s.kernelPagingDirectory }
  (boot b).next (.execv ⟨0x59005070, d, 0x08048054, s.paging⟩)

/-- the process is dispatched -/
def greets (s : Loader) (d : Nat) : Typing := (Typing.start (greetsLoaded s d)).next (.dispatch ring0 0x202)

theorem greetsLoaded_started {s : Loader} {d : Nat} (h : s.directories = [d]) : Started s (greetsLoaded s d) := by
  let b : BootState := { smallMachine with paging := s.paging, kernelPagingDirectory := s.kernelPagingDirectory }
  exact ⟨⟨b, [.execv _], _, step_next trivial rfl, rfl⟩, rfl, rfl, h.symm, rfl⟩

theorem happens_greets (s : Loader) (d : Nat) :
    (Typing.start (greetsLoaded s d)).Happens (.kernel (.dispatch ring0 0x202)) (greets s d) := by
  have hring0 : ¬ ring0.user := by decide
  exact Typing.step_next (fun _ h => by cases h) ⟨hring0, hring0⟩ rfl rfl

/-- what is found at an address that is mapped -/
theorem processByte_of_byteAt {s : Kernel} {p : Nat} {a : UInt32} {c : UInt8}
    (h : s.paging.byteAt (s.directory p) a.toNat = some c) :
    s.processByte p a = c ∧ (s.processWalk p a).isSome := by
  obtain ⟨x, hx, rfl⟩ := Option.map_eq_some_iff.mp h
  have hx : s.processWalk p a = some x := hx
  refine ⟨?_, Option.isSome_iff_exists.mpr ⟨x, hx⟩⟩
  rw [processByte, hx]
  rfl

/-- the loader with the greeting: one directory, with its four bytes and a stack -/
theorem greeting_loaded : ∃ s d, Loader.run ([] ++ [greeting]) (Loader.boot fun _ => 0) = .ok ⟨⟩ s ∧
    s.directories = [d] ∧
    (∀ i < 4, s.paging.byteAt d (0x08048054 + i) = some ([0x68, 0x69, 0, 0].getD i 0)) ∧
    ∀ a, a / 4096 = 0xfeff → ∃ x, checkAddressMapping s.paging a d = some x := by
  have hnil := List.forall_mem_nil Accepted
  obtain ⟨s, d, hs, hd⟩ := run_single greeting_accepted (by decide +kernel)
  obtain ⟨f, hshape, hat, hF⟩ := run_directory (fun _ => 0) hnil greeting_accepted hs hd
  obtain ⟨g, hg, hb⟩ := run_ok (fun _ => 0) (accepted_snoc hnil greeting_accepted) hs
  have hlen : g.directories.length = 1 := hb.loaded
  obtain ⟨d', hd'⟩ := List.length_eq_one_iff.mp hlen
  have hone := hg.directories.trans hd'
  obtain rfl : d' = d := by
    rw [hone] at hd
    exact Option.some.inj hd
  refine ⟨s, d', hs, hone, fun i hi => ?_, fun a ha => ?_⟩
  · have hv : (greeting.phentry 0).pVaddr = 0x8048054 := by decide +kernel
    have hm : (greeting.phentry 0).pMemsz = 4 := by decide +kernel
    have hoff : (greeting.phentry 0).pOffset = 84 := by decide +kernel
    have halone : StarOS.Alone greeting 0 := by
      refine alone_single (by decide +kernel) fun p ⟨k, hk, hp⟩ => ?_
      rw [hm] at hk
      rw [hv, wrap32] at hp
      rw [kernelPage_iff, StackPage]
      omega
    have hbyte := alone_first greeting_accepted (by decide +kernel) (by rw [hm]; decide) halone hshape hat hF
      (k := i) (by rw [ProgramHeader.firstCount, hv, hm]; omega)
    rw [hv, hoff, wrap32, Nat.mod_eq_of_lt (by omega)] at hbyte
    have hbytes : ∀ i < 4, greeting.getD (84 + i) 0 = [0x68, 0x69, 0, 0].getD i 0 := by decide
    rw [hbyte, hbytes i hi]
  · obtain ⟨hat, hk⟩ := hg.ok.processes d' (hd' ▸ List.mem_singleton_self d')
    have hstack := (hb.complete d' (hd' ▸ List.mem_singleton_self d')).stack _
      (stackPage_mem (p := 0xfeff) ⟨by decide, by decide⟩)
    have hpage : (Request.stackPage (4096 * 0xfeff)).page = 0xfeff := rfl
    rw [hpage] at hstack
    obtain ⟨y, hy⟩ := Option.ne_none_iff_exists'.mp hstack
    exact ⟨y + a % 4096, by rw [hg.walk hat (by omega), ha, hy]; rfl⟩

theorem user_printf_shows_hi : ∃ s d t out,
    Loader.run ([] ++ [greeting]) (Loader.boot fun _ => 0) = .ok ⟨⟩ s ∧
      (greets s d).kernel.step (.syscall (trapOf (libcPrintf ring3 0x08048054 2 0x0feffe00) 0)) = .ok t ∧
      Verbatim [.literal 0x68, .literal 0x69] out := by
  obtain ⟨s, d, hs, hone, htext, hstack⟩ := greeting_loaded
  have hfiles := accepted_snoc (List.forall_mem_nil Accepted) greeting_accepted
  have hformat : ∀ i < 4, (greets s d).kernel.processByte 0 (0x08048054 + UInt32.ofNat i) = [0x68, 0x69, 0, 0].getD i 0 ∧
      (greets s d).kernel.Private 0 (0x08048054 + UInt32.ofNat i) := by
    intro i hi
    have e : (0x08048054 + UInt32.ofNat i).toNat = 0x08048054 + i := by
      rw [UInt32.toNat_add, UInt32.toNat_ofNat']
      have : (0x08048054 : UInt32).toNat = 0x08048054 := rfl
      omega
    obtain ⟨hbyte, hmapped⟩ := processByte_of_byteAt (s := (greets s d).kernel) (p := 0) (a := 0x08048054 + UInt32.ofNat i)
      ((congrArg _ e).trans (htext i hi))
    refine ⟨hbyte, hmapped, ?_⟩
    rw [e, kernelPage_iff]
    omega
  have hwords : ∀ k < 10, WordIn ((greets s d).kernel.Private 0) (0x0feffe00 + 4 + 4 * UInt32.ofNat k) := by
    intro k hk i hi
    have e : (0x0feffe00 + 4 + 4 * UInt32.ofNat k).toNat = 0x0feffe04 + 4 * k := by
      have h4 : (4 : UInt32).toNat = 4 := rfl
      have hbase : (0x0feffe00 + 4 : UInt32).toNat = 0x0feffe04 := rfl
      rw [UInt32.toNat_add, UInt32.toNat_mul, UInt32.toNat_ofNat', h4, hbase]
      omega
    have e' : (UInt32.ofNat ((0x0feffe00 + 4 + 4 * UInt32.ofNat k).toNat + i)).toNat / 4096 = 0xfeff := by
      rw [e, UInt32.toNat_ofNat']
      omega
    obtain ⟨x, hx⟩ := hstack _ e'
    refine ⟨Option.isSome_iff_exists.mpr ⟨x, hx⟩, ?_⟩
    rw [e', kernelPage_iff]
    omega
  have hstring : StringAt ((greets s d).kernel.processByte 0) 0x08048054 [0x68, 0x69] :=
    ⟨by decide, (hformat 0 (by decide)).1, by decide, (hformat 1 (by decide)).1, (hformat 2 (by decide)).1⟩
  have hliteral : ∀ c, Piece.literal c ∈ [Piece.literal 0x68, .literal 0x69] → c = 0x68 ∨ c = 0x69 := by
    intro c hc
    simpa using hc
  have hprep : (greets s d).kernel.Prepared 0 0x08048054 0x0feffe00 [.literal 0x68, .literal 0x69] := by
    refine ⟨hstring, fun i hi => (hformat i (Nat.lt_of_le_of_lt hi (by decide))).2, by decide, trivial, trivial, hwords,
      by decide, fun c hc => ?_, ⟨fun _ hs => by simp at hs, fun c hc => ?_⟩⟩
    · rcases hliteral c hc with rfl | rfl <;> decide
    · rcases hliteral c hc with rfl | rfl <;> decide
  have hring3 : ring3.user := by decide
  obtain ⟨t, out, ht, -, hverbatim, -⟩ := user_printf_shows (fun _ => 0) _ hfiles s hs _ (greetsLoaded_started hone)
    [.kernel (.dispatch ring0 0x202)] (greets s d) ⟨_, happens_greets s d, rfl⟩
    ⟨Typing.tame_dispatch _ _ _, fun _ _ => trivial⟩ 0 rfl 0x08048054 0x0feffe00 _ hprep ring3 2 3
    (strlen_eq hstring 0 (by decide)) (trapOf (libcPrintf ring3 0x08048054 2 0x0feffe00) 0) rfl
    ⟨hring3, selector_user 4⟩
  exact ⟨s, d, t, out, hs, ht, hverbatim⟩

end Kernel
end StarOS
