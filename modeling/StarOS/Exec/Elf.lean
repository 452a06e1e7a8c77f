import StarOS.Layout
import StarOS.Fatal
import StarOS.Lib.Bytes
import Mathlib.Data.List.Basic

/-!
# What `execv` asks of the memory (`execv` of `process.cpp`, `ELF_HEADER` of `bootloader32.h`)

`execv` walks over the program headers of a file and maps pages in the directory of the process.
Which pages, and what is copied into them, depends on the file only: `plan f` is the list of these
requests, in the order of the source, and the message it ends with if it halts.

* `ElfHeader`, `ProgramHeader`   the two packed records, read from the bytes of the file;
* `segment`            the body of the loop over the program headers, `nextPages` its inner loop;
* `stackRequests`, `kernelRequests`   the 1MB stack and the pages of `Kernel_maps`;
* `Accepted f`         the file gets through;
* `plan_valid`         every address asked for is the start of a 32-bit page, and nothing is copied
                       past the end of a page.

The buffer is the file: a read past its end is `outOfBounds`.
-/

namespace StarOS
open Lib

/-- the bytes of a program file -/
abbrev File := List UInt8

namespace File

/-- the buffer the file is read into -/
def buffer (f : File) : Mem := fun i => f.getD i 0

/-- `n` bytes at `src`, if they are all in the buffer -/
def slice (f : File) (src n : Nat) : Option (List UInt8) :=
  if src + n ≤ f.length then some ((f.drop src).take n) else none

theorem slice_length {f : File} {src n : Nat} {data : List UInt8} (h : f.slice src n = some data) :
    data.length = n := by
  unfold slice at h
  by_cases hn : src + n ≤ f.length
  · rw [if_pos hn] at h
    rw [← Option.some.inj h, List.length_take, List.length_drop]
    omega
  · rw [if_neg hn] at h
    cases h

end File

/-! ## the records -/

/-- the fields of `struct ELF_HEADER` that `execv` reads -/
structure ElfHeader where
  magicNum : Nat
  bitness : Nat
  endianness : Nat
  version : Nat
  abi : Nat
  abiVersion : Nat
  type : Nat
  machine : Nat
  eVersion : Nat
  eEntry : Nat
  ePhoff : Nat
  ePhnum : Nat

def ElfHeader.bytes : Nat := 52

def File.header (f : File) : ElfHeader where
  magicNum := read32 f.buffer 0
  bitness := (f.buffer 4).toNat
  endianness := (f.buffer 5).toNat
  version := (f.buffer 6).toNat
  abi := (f.buffer 7).toNat
  abiVersion := (f.buffer 8).toNat
  type := read16 f.buffer 16
  machine := read16 f.buffer 18
  eVersion := read32 f.buffer 20
  eEntry := read32 f.buffer 24
  ePhoff := read32 f.buffer 28
  ePhnum := read16 f.buffer 44

def ElfHeader.isValidElf (h : ElfHeader) : Bool :=
  h.magicNum == 0x464c457f && h.bitness == 1 && h.endianness == 1 && h.version == 1 && h.abi == 0 &&
    h.abiVersion == 0 && h.type == 0x02 && h.machine == 0x03 && h.eVersion == 1

/-- the fields of `struct Program_header` that `execv` reads -/
structure ProgramHeader where
  pOffset : Nat
  pVaddr : Nat
  pFilesz : Nat
  pMemsz : Nat

def ProgramHeader.bytes : Nat := 32

/-- `program_header_table[i]`, with the table at `table` -/
def File.programHeader (f : File) (table i : Nat) : ProgramHeader where
  pOffset := read32 f.buffer (table + ProgramHeader.bytes * i + 4)
  pVaddr := read32 f.buffer (table + ProgramHeader.bytes * i + 8)
  pFilesz := read32 f.buffer (table + ProgramHeader.bytes * i + 16)
  pMemsz := read32 f.buffer (table + ProgramHeader.bytes * i + 20)

/-! ## requests -/

/-- one page that is mapped in the directory of the process -/
inductive Request where
  /-- the first page of a segment: a new page, `data` copied to `offset` in it -/
  | firstPage (vpage offset : Nat) (data : List UInt8)
  /-- a following page of a segment -/
  | nextPage (vaddr : Nat) (data : List UInt8)
  /-- a new page of the stack -/
  | stackPage (vaddr : Nat)
  /-- a page of `Kernel_maps` -/
  | kernelPage (vaddr physical : Nat)

namespace Request

/-- the number of the page that is mapped -/
def page : Request → Nat
  | .firstPage vpage _ _ => vpage / 4096
  | .nextPage vaddr _ => vaddr / 4096
  | .stackPage vaddr => vaddr / 4096
  | .kernelPage vaddr _ => vaddr / 4096

/-- the entry of the directory that covers it -/
def slot (r : Request) : Nat := r.page / 1024

/-- how many new pages are allocated for it, page tables apart -/
def newPages : Request → Nat
  | .kernelPage _ _ => 0
  | _ => 1

end Request

/-- the requests up to a halt, and its message; `none` if the code goes on -/
abbrev Plan := List Request × Option Fatal

/-- one plan after the other -/
def Plan.andThen (p q : Plan) : Plan :=
  match p.2 with
  | none => (p.1 ++ q.1, q.2)
  | some e => (p.1, some e)

/-- the loop that copies the following pages: `bytes_to_copy` is so many whole pages and `rest`
bytes more; `vaddr` stays the same in it -/
def nextPages (f : File) (vaddr src rest : Nat) : Nat → Plan
  | 0 =>
    if rest = 0 then ([], none)
    else
      match f.slice src rest with
      | none => ([], some .outOfBounds)
      | some data => ([.nextPage vaddr data], none)
  | n + 1 =>
    match f.slice src pageSize with
    | none => ([], some .outOfBounds)
    | some data => Plan.andThen ([.nextPage vaddr data], none) (nextPages f vaddr (src + pageSize) rest n)

/-- the body of the loop over the program headers -/
def segment (f : File) (i : Nat) (phentry : ProgramHeader) : Plan :=
  if phentry.pFilesz ≠ phentry.pMemsz then ([], some (.unsupportedProgramHeader i))
  else if phentry.pMemsz = 0 then ([], none)
  else
    let offsetInPage := phentry.pVaddr % pageSize
    let vpage := phentry.pVaddr - offsetInPage
    let count := if wrap32 (phentry.pMemsz + offsetInPage) < pageSize then phentry.pMemsz
      else pageSize - offsetInPage
    match f.slice phentry.pOffset count with
    | none => ([], some .outOfBounds)
    | some data =>
      if pageSize < offsetInPage + count then ([], some .outOfBounds)
      else
        let bytesToCopy := phentry.pMemsz - count
        Plan.andThen ([.firstPage vpage offsetInPage data], none)
          (nextPages f (wrap32 (vpage + pageSize)) pageSize (bytesToCopy % pageSize)
            (bytesToCopy / pageSize))

/-- the loop over the program headers, from entry `i` on; `n` are left -/
def segments (f : File) (i : Nat) : Nat → Plan
  | 0 => ([], none)
  | n + 1 =>
    if f.length < f.header.ePhoff + ProgramHeader.bytes * (i + 1) then ([], some .outOfBounds)
    else Plan.andThen (segment f i (f.programHeader f.header.ePhoff i)) (segments f (i + 1) n)

/-- `Kernel_maps`: virtual address, physical address, length -/
def kernelMaps : List (Nat × Nat × Nat) :=
  [(0, 0, 1024 * 1024 * 4),
    (textMemoryStart, textMemoryStart, textMemoryLength),
    (rodataMemoryStart, rodataMemoryStart, rodataMemoryLength),
    (dataMemoryStart, dataMemoryStart, dataMemoryLength),
    (freeMemoryStart, freeMemoryStart, freeMemoryLength),
    (freeMemoryPageStart, freeMemoryPageStart, freeMemoryPageLength)]

/-- the two loops of `add_kernel_mappings` -/
def kernelRequests : List Request :=
  kernelMaps.flatMap fun map => (List.range (map.2.2 / pageSize)).map fun offset =>
    .kernelPage (map.1 + pageSize * offset) (map.2.1 + pageSize * offset)

def userStackSize : Nat := 1024 * 1024

/-- the pages below `USER_STACK_VADDRESS`, downwards -/
def stackRequests : List Request :=
  (List.range (userStackSize / pageSize)).map fun i => .stackPage (0x0ff00000 - pageSize - pageSize * i)

/-- `execv`, from the header of the file to `add_kernel_mappings` -/
def plan (f : File) : Plan :=
  if f.length < ElfHeader.bytes then ([], some .outOfBounds)
  else if f.header.isValidElf then
    Plan.andThen (segments f 0 f.header.ePhnum) (stackRequests ++ kernelRequests, none)
  else ([], some .unsupportedProgramFile)

/-- the file gets through -/
def Accepted (f : File) : Prop := (plan f).2 = none

/-- the file is long enough, its header is valid and so is every program header -/
theorem accepted_iff (f : File) : Accepted f ↔
    ElfHeader.bytes ≤ f.length ∧ f.header.isValidElf = true ∧ (segments f 0 f.header.ePhnum).2 = none := by
  unfold Accepted plan
  by_cases h1 : f.length < ElfHeader.bytes
  · rw [if_pos h1]
    simp [Nat.not_le.mpr h1]
  rw [if_neg h1]
  cases h2 : f.header.isValidElf with
  | false => simp
  | true =>
    rw [if_pos rfl]
    unfold Plan.andThen
    cases h3 : (segments f 0 f.header.ePhnum).2 with
    | none => simp [Nat.not_lt.mp h1]
    | some e => simp

/-! ## the pages of the kernel -/

/-- page `p` lies in `Kernel_maps` -/
def KernelPage (p : Nat) : Prop :=
  ∃ map ∈ kernelMaps, map.1 ≤ pageSize * p ∧ pageSize * p < map.1 + map.2.2

theorem kernelPage_iff (p : Nat) : KernelPage p ↔ p < 1024 ∨ 0x40005 ≤ p ∧ p < 0x7e805 := by
  simp only [KernelPage, kernelMaps, List.mem_cons, List.not_mem_nil, or_false, or_and_right,
    exists_or, exists_eq_left, pageSize, dataMemoryEnd, freeMemoryPageStart, freeMemoryStart,
    textMemoryStart, textMemoryLength, rodataMemoryStart, rodataMemoryLength, dataMemoryStart,
    dataMemoryLength, freeMemoryLength, freeMemoryPageLength]
  omega

instance (p : Nat) : Decidable (KernelPage p) := decidable_of_iff _ (kernelPage_iff p).symm

/-- every page of `Kernel_maps` is mapped to itself, and no other page -/
theorem mem_kernelRequests (r : Request) :
    r ∈ kernelRequests ↔ ∃ p, KernelPage p ∧ r = .kernelPage (pageSize * p) (pageSize * p) := by
  have hmaps : ∀ map ∈ kernelMaps, map.2.1 = map.1 ∧ map.1 % pageSize = 0 ∧ map.2.2 % pageSize = 0 := by
    decide
  constructor
  · intro hr
    obtain ⟨map, hmap, hr⟩ := List.mem_flatMap.mp hr
    obtain ⟨offset, ho, rfl⟩ := List.mem_map.mp hr
    obtain ⟨h1, h2, h3⟩ := hmaps map hmap
    have ho := List.mem_range.mp ho
    rw [pageSize_eq] at *
    have e : map.1 + 4096 * offset = 4096 * (map.1 / 4096 + offset) := by omega
    refine ⟨map.1 / 4096 + offset, ⟨map, hmap, ?_, ?_⟩, ?_⟩
    · rw [pageSize_eq]
      omega
    · rw [pageSize_eq]
      omega
    · rw [h1, e]
  · rintro ⟨p, ⟨map, hmap, hlo, hhi⟩, rfl⟩
    obtain ⟨h1, h2, h3⟩ := hmaps map hmap
    rw [pageSize_eq] at *
    have e : 4096 * p = map.1 + 4096 * (p - map.1 / 4096) := by omega
    refine List.mem_flatMap.mpr ⟨map, hmap, List.mem_map.mpr ⟨p - map.1 / 4096, ?_, ?_⟩⟩
    · rw [List.mem_range, pageSize_eq]
      omega
    · rw [h1, pageSize_eq, ← e]

/-! ## requests are for whole pages -/

/-- the addresses are starts of pages, the data does not leave its page -/
def Request.Valid : Request → Prop
  | .firstPage vpage offset data => vpage % 4096 = 0 ∧ vpage < 2^32 ∧ offset + data.length ≤ 4096
  | .nextPage vaddr data => vaddr % 4096 = 0 ∧ vaddr < 2^32 ∧ data.length ≤ 4096
  | .stackPage vaddr => vaddr % 4096 = 0 ∧ vaddr < 2^32
  | .kernelPage vaddr physical =>
    vaddr % 4096 = 0 ∧ vaddr < 2^32 ∧ physical % 4096 = 0 ∧ physical < 2^32

theorem Plan.andThen_forall {P : Request → Prop} {p q : Plan} (hp : ∀ r ∈ p.1, P r)
    (hq : ∀ r ∈ q.1, P r) : ∀ r ∈ (p.andThen q).1, P r := by
  intro r hr
  unfold Plan.andThen at hr
  cases h : p.2 with
  | some e =>
    rw [h] at hr
    exact hp r hr
  | none =>
    rw [h] at hr
    rcases List.mem_append.mp hr with hr | hr
    · exact hp r hr
    · exact hq r hr

/-- a plan that gets through did so in both halves -/
theorem Plan.andThen_accepted {p q : Plan} (h : (p.andThen q).2 = none) :
    p.2 = none ∧ q.2 = none ∧ (p.andThen q).1 = p.1 ++ q.1 := by
  unfold Plan.andThen at h ⊢
  cases hp : p.2 with
  | some e =>
    rw [hp] at h
    cases h
  | none =>
    rw [hp] at h
    exact ⟨rfl, h, rfl⟩

theorem nextPages_valid (f : File) {vaddr : Nat} (src : Nat) {rest : Nat} (n : Nat)
    (hv : vaddr % 4096 = 0) (hlt : vaddr < 2^32) (hrest : rest < 4096) :
    ∀ r ∈ (nextPages f vaddr src rest n).1, r.Valid ∧ r.newPages = 1 := by
  induction n generalizing src with
  | zero =>
    unfold nextPages
    by_cases h0 : rest = 0
    · simp [h0]
    · rw [if_neg h0]
      cases hs : f.slice src rest with
      | none => simp
      | some data =>
        have := File.slice_length hs
        intro r hr
        rw [List.mem_singleton.mp hr]
        exact ⟨⟨hv, hlt, by omega⟩, rfl⟩
  | succ n ih =>
    unfold nextPages
    cases hs : f.slice src pageSize with
    | none => simp
    | some data =>
      have hl := File.slice_length hs
      rw [pageSize_eq] at hl
      refine Plan.andThen_forall ?_ (ih _)
      intro r hr
      rw [List.mem_singleton.mp hr]
      exact ⟨⟨hv, hlt, by omega⟩, rfl⟩

theorem segment_valid (f : File) (i : Nat) {phentry : ProgramHeader} (hv : phentry.pVaddr < 2^32) :
    ∀ r ∈ (segment f i phentry).1, r.Valid ∧ r.newPages = 1 := by
  unfold segment
  by_cases h1 : phentry.pFilesz ≠ phentry.pMemsz
  · rw [if_pos h1]
    simp
  by_cases h2 : phentry.pMemsz = 0
  · rw [if_neg h1, if_pos h2]
    simp
  rw [if_neg h1, if_neg h2]
  dsimp only
  generalize (if wrap32 (phentry.pMemsz + phentry.pVaddr % pageSize) < pageSize then phentry.pMemsz
    else pageSize - phentry.pVaddr % pageSize) = count
  cases hs : f.slice phentry.pOffset count with
  | none => simp
  | some data =>
    have hl := File.slice_length hs
    dsimp only
    by_cases h3 : pageSize < phentry.pVaddr % pageSize + count
    · rw [if_pos h3]
      simp
    · rw [if_neg h3]
      rw [pageSize_eq] at h3
      have hw : wrap32 (phentry.pVaddr - phentry.pVaddr % pageSize + pageSize) % 4096 = 0 := by
        rw [pageSize_eq, wrap32]
        omega
      have hw' : wrap32 (phentry.pVaddr - phentry.pVaddr % pageSize + pageSize) < 2^32 :=
        Nat.mod_lt _ (by decide)
      refine Plan.andThen_forall ?_ (nextPages_valid f _ _ hw hw' (Nat.mod_lt _ (by decide)))
      intro r hr
      rw [List.mem_singleton.mp hr]
      refine ⟨?_, rfl⟩
      show (phentry.pVaddr - phentry.pVaddr % 4096) % 4096 = 0 ∧
        phentry.pVaddr - phentry.pVaddr % 4096 < 2^32 ∧ phentry.pVaddr % 4096 + data.length ≤ 4096
      exact ⟨by omega, by omega, by omega⟩

theorem segments_valid (f : File) (i n : Nat) :
    ∀ r ∈ (segments f i n).1, r.Valid ∧ r.newPages = 1 := by
  induction n generalizing i with
  | zero => simp [segments]
  | succ n ih =>
    unfold segments
    by_cases h : f.length < f.header.ePhoff + ProgramHeader.bytes * (i + 1)
    · simp [h]
    · rw [if_neg h]
      exact Plan.andThen_forall (segment_valid f i (read32_lt _ _)) (ih (i + 1))

/-- **Every request of a plan is for whole pages** -/
theorem plan_valid (f : File) : ∀ r ∈ (plan f).1, r.Valid := by
  unfold plan
  by_cases h1 : f.length < ElfHeader.bytes
  · simp [h1]
  rw [if_neg h1]
  cases h2 : f.header.isValidElf with
  | false => simp
  | true =>
    rw [if_pos rfl]
    refine Plan.andThen_forall (fun r hr => (segments_valid f _ _ r hr).1) ?_
    intro r hr
    rcases List.mem_append.mp hr with hr | hr
    · obtain ⟨i, hi, rfl⟩ := List.mem_map.mp hr
      have hi := List.mem_range.mp hi
      simp only [userStackSize, pageSize_eq] at hi ⊢
      exact ⟨by omega, by omega⟩
    · obtain ⟨p, hp, rfl⟩ := (mem_kernelRequests r).mp hr
      rw [kernelPage_iff] at hp
      simp only [pageSize_eq]
      exact ⟨by omega, by omega, by omega, by omega⟩

/-- what is asked for a file that gets through -/
theorem plan_accepted {f : File} (h : Accepted f) :
    (plan f).1 = (segments f 0 f.header.ePhnum).1 ++ (stackRequests ++ kernelRequests) := by
  unfold Accepted plan at h
  unfold plan
  by_cases h1 : f.length < ElfHeader.bytes
  · simp [h1] at h
  rw [if_neg h1] at h ⊢
  cases h2 : f.header.isValidElf with
  | false => simp [h2] at h
  | true =>
    rw [h2, if_pos rfl] at h
    rw [if_pos rfl]
    exact (Plan.andThen_accepted h).2.2

end StarOS
