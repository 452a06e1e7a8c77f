import StarOS.Exec.Elf
import StarOS.Paging.Refine
import StarOS.Lib.Halt

/-!
# Loading programs into memory (`execv` of `process.cpp`, `paging.cpp`, `alloc_page`)

`Loader` is the memory with the two globals of `paging.cpp`, the page directories of the processes
and a log of the pages `alloc_page` returned.  A function that halts keeps the state it halts in.

* `touch a`            the first access to the page at `a`;
* `allocFrame`         `alloc_page`, with the page fault its first store may cause;
* `addMapping`         `add_memory_mapping` over it;
* `serve d r`          one request, for the process with the directory `d`;
* `load f`             `execv` up to `add_kernel_mappings`;
* `ksetupKernelPaging`, `boot`   the directory of the kernel, and paging enabled.

The code runs on the kernel's directory, which maps every page of the pool to itself, so the model
reads and writes directories, tables and new pages at their physical addresses.
-/

namespace StarOS
open Lib

structure Loader where
  paging : Paging
  isPagingEnabled : Bool
  kernelPagingDirectory : Nat
  directories : List Nat
  /-- the pages `alloc_page` returned -/
  handedOut : List Nat

abbrev LoadM := EStateM Fatal Loader

/-- the bytes `data` at `a` and after it -/
def writeBytes (m : Mem) (a : Nat) : List UInt8 → Mem
  | [] => m
  | b :: data => writeBytes (writeByte m a b) (a + 1) data

namespace Loader

/-- the first access to the page at `a`.  A page that is not mapped faults, and the handler maps it
to itself; where it needs a page table for it, it calls `alloc_page` again, and the page it gets
faults in the same way. -/
def touch (a : Nat) : LoadM PUnit := fun s =>
  if !s.isPagingEnabled || (checkAddressMapping s.paging a s.kernelPagingDirectory).isSome then .ok ⟨⟩ s
  else if (s.paging.entry s.kernelPagingDirectory (dirIndex a)).p then
    match addMemoryMapping s.paging a a s.kernelPagingDirectory false with
    | none => .error .notAligned s
    | some paging => .ok ⟨⟩ { s with paging := paging }
  else .error .kernelStackOverflow s

/-- the state after `alloc_page` has cleared the page -/
def handOut (s : Loader) : Loader :=
  { s with paging := (allocPage s.paging).2, handedOut := s.handedOut ++ [(allocPage s.paging).1] }

def clearPage : LoadM Nat := fun s => .ok (allocPage s.paging).1 s.handOut

/-- `alloc_page` -/
def allocFrame : LoadM Nat := do
  touch (allocPage (← get).paging).1
  clearPage

def setEntry (table i : Nat) (e : PTE) : LoadM PUnit := fun s =>
  .ok ⟨⟩ { s with paging := s.paging.setEntry table i e }

/-- the part of `add_memory_mapping` that allocates a missing page table -/
def ensureTable (linear directory : Nat) (userLevel : Bool) : LoadM PUnit := do
  if ((← get).paging.entry directory (dirIndex linear)).p then pure ⟨⟩
  else
    let pageTable ← allocFrame
    setEntry directory (dirIndex linear) (PTE.present userLevel pageTable)

/-- `add_memory_mapping` -/
def addMapping (linear physical directory : Nat) (userLevel : Bool) : LoadM PUnit := do
  if linear &&& 0b111111111111 ≠ 0 ∨ physical &&& 0b111111111111 ≠ 0 then throw .notAligned
  else
    ensureTable linear directory userLevel
    setEntry ((← get).paging.entry directory (dirIndex linear)).table (tableIndex linear)
      (PTE.present userLevel physical)

/-- `memset(page, 0, PAGE_SIZE)` -/
def memset (page : Nat) : LoadM PUnit := fun s =>
  .ok ⟨⟩ { s with paging := { s.paging with mem := zeromem s.paging.mem page pageSize } }

/-- `memcpy` out of the buffer of the file -/
def copy (dest : Nat) (data : List UInt8) : LoadM PUnit := fun s =>
  .ok ⟨⟩ { s with paging := { s.paging with mem := writeBytes s.paging.mem dest data } }

/-- one request, in the directory `directory` -/
def serve (directory : Nat) : Request → LoadM PUnit
  | .firstPage vpage offset data => do
    let page ← allocFrame
    memset page
    addMapping vpage page directory true
    copy (page + offset) data
  | .nextPage vaddr data => do
    let page ← allocFrame
    addMapping vaddr page directory true
    memset page
    copy page data
  | .stackPage vaddr => do
    let page ← allocFrame
    addMapping vaddr page directory true
  | .kernelPage vaddr physical => do
    addMapping vaddr physical directory (directory != (← get).kernelPagingDirectory)

/-- the process has its directory -/
def loaded (directory : Nat) : LoadM PUnit := fun s =>
  .ok ⟨⟩ { s with directories := s.directories ++ [directory] }

/-- `execv`, until the process is ready -/
def load (f : File) : LoadM PUnit := do
  let directory ← allocFrame
  memset directory
  (plan f).1.forM (serve directory)
  match (plan f).2 with
  | none => loaded directory
  | some e => throw e

def setKernelPagingDirectory (directory : Nat) : LoadM PUnit := fun s =>
  .ok ⟨⟩ { s with kernelPagingDirectory := directory }

def enableKernelPaging : LoadM PUnit := fun s => .ok ⟨⟩ { s with isPagingEnabled := true }

def notUsedMemoryStart : Nat := 0x20200000

/-- `ksetup_kernel_paging`, without the words it writes outside the pool to test itself -/
def ksetupKernelPaging : LoadM PUnit := do
  let directory ← allocFrame
  setKernelPagingDirectory directory
  kernelRequests.forM (serve directory)
  serve directory (.kernelPage notUsedMemoryStart (notUsedMemoryStart + pageSize))
  enableKernelPaging

/-- before `ksetup_kernel_paging` -/
def boot (mem : Mem) : Loader := ⟨⟨mem, freeMemoryPageStart⟩, false, 0, [], []⟩

/-- `kernel_main`: paging is set up, then `execv` is called for each file -/
def run (files : List File) : LoadM PUnit := do
  ksetupKernelPaging
  files.forM load

end Loader

/-! ## bytes that are not written -/

theorem writeBytes_apart {m : Mem} {a : Nat} {data : List UInt8} {x : Nat}
    (h : x < a ∨ a + data.length ≤ x) : writeBytes m a data x = m x := by
  induction data generalizing m a with
  | nil => rfl
  | cons b data ih =>
    rw [List.length_cons] at h
    show writeBytes (writeByte m a b) (a + 1) data x = _
    rw [ih (by omega), writeByte, if_neg (by omega)]

end StarOS
