import StarOS.Exec.Elf
import StarOS.Fs.OnDisk
import StarOS.Lib.Place
import Mathlib.Tactic.IntervalCases

/-!
# The boot loader loads the kernel (`bootloader32_start` of `bootloader_32.cpp`)

The boot loader reads `/staros_kernel.elf` to 0x20200000, copies its three segments to their addresses, calls the
functions in its sections `.ctors` and jumps to its entry.

* `bootloader32Start`  all of it, on a disk and a memory of bytes;
* `boot`               what it is for, on the bytes of the file: which files it takes, where each of their bytes
                       goes, and what it calls;
* `enterKernel_eq`     it does that with a file that is in the buffer, if the segments stay off the buffer and the
                       functions do too;
* `kernel_loaded`      **so it does from the disk on, whatever its local variables held.**

The code and the stack of the boot loader itself are not part of the memory.  Addresses are natural numbers, and
no range goes round at `2^32`.
-/

namespace StarOS
open Lib

namespace Boot

/-- where the file is read to -/
def buffer : Nat := 0x20200000

/-- `".ctors"` -/
def ctorsName : Mem := fun i => [0x2e, 0x63, 0x74, 0x6f, 0x72, 0x73].getD i 0

/-- the fields of `struct ELF_HEADER` that the boot loader reads -/
structure KernelHeader extends ElfHeader where
  eShoff : Nat
  eShnum : Nat
  eShstrndx : Nat

/-- `*(ELF_HEADER *)buffer` -/
def KernelHeader.ofBuffer (b : Mem) : KernelHeader where
  magicNum := read32 b 0
  bitness := (b 4).toNat
  endianness := (b 5).toNat
  version := (b 6).toNat
  abi := (b 7).toNat
  abiVersion := (b 8).toNat
  type := read16 b 16
  machine := read16 b 18
  eVersion := read32 b 20
  eEntry := read32 b 24
  ePhoff := read32 b 28
  eShoff := read32 b 32
  ePhnum := read16 b 44
  eShnum := read16 b 48
  eShstrndx := read16 b 50

/-- the condition before the segments are loaded -/
def KernelHeader.isKernel (h : KernelHeader) : Bool := h.isValidElf && h.ePhnum == 3

/-- entry `i` of the program header table at `table` -/
def programHeaderAt (b : Mem) (table i : Nat) : ProgramHeader where
  pOffset := read32 b (table + 32 * i + 4)
  pVaddr := read32 b (table + 32 * i + 8)
  pFilesz := read32 b (table + 32 * i + 16)
  pMemsz := read32 b (table + 32 * i + 20)

/-- the fields of `struct Section_header` that the boot loader reads -/
structure SectionHeader where
  shName : Nat
  shAddr : Nat
  shOffset : Nat
  shSize : Nat

/-- entry `i` of the section header table at `table` -/
def sectionHeaderAt (b : Mem) (table i : Nat) : SectionHeader where
  shName := read32 b (table + 40 * i)
  shAddr := read32 b (table + 40 * i + 12)
  shOffset := read32 b (table + 40 * i + 16)
  shSize := read32 b (table + 40 * i + 20)

/-! ## the boot loader -/

inductive Panic where
  /-- a panic that the kernel has too -/
  | fatal (e : Fatal)
  /-- `"Unsupported kernel file"` -/
  | unsupportedKernelFile

/-- the kernel is entered: where, with which memory, and which functions were called before -/
structure Entered where
  entry : Nat
  mem : Mem
  called : List Nat

section
-- what a function does to the memory, by its address
variable (run : Nat → Mem → Mem)

end

/-! ## what it is for -/

section
variable (f : Mem)

/-- the program header `i` of a file -/
def phentry (i : Nat) : ProgramHeader := programHeaderAt f (KernelHeader.ofBuffer f).ePhoff i

def pieceOf (i : Nat) : Piece := ⟨(phentry f i).pVaddr, (phentry f i).pOffset, (phentry f i).pMemsz⟩

def unsupported (i : Nat) : Bool := (phentry f i).pFilesz ≠ (phentry f i).pMemsz

/-- the section header `i` -/
def shentry (i : Nat) : SectionHeader := sectionHeaderAt f (KernelHeader.ofBuffer f).eShoff i

/-- where the name of section `i` is -/
def nameOffset (i : Nat) : Nat := (shentry f (KernelHeader.ofBuffer f).eShstrndx).shOffset + (shentry f i).shName

def isCtors (i : Nat) : Bool := strcmp 7 (advance f (nameOffset f i)) ctorsName = some 0

/-- the functions of section `i`, in a memory that holds its segment -/
def functionsOf (mem : Mem) (i : Nat) : List Nat :=
  (List.range ((shentry f i).shSize / 4)).map fun j => read32 mem ((shentry f i).shAddr + 4 * j)

/-- all functions that are called, in order -/
def functions (mem : Mem) (n : Nat) : List Nat :=
  ((List.range n).filter (isCtors f)).flatMap (functionsOf f mem)

/-- what the boot loader does with the file -/
def boot (run : Nat → Mem → Mem) (mem : Mem) : Except Panic Entered :=
  let header := KernelHeader.ofBuffer f
  if header.isKernel then
    match (List.range 3).find? (unsupported f) with
    | some i => .error (.fatal (.unsupportedProgramHeader i))
    | none =>
      let mem := place f mem ((List.range 3).map (pieceOf f))
      let called := functions f mem header.eShnum
      .ok ⟨header.eEntry, called.foldl (fun mem a => run a mem) mem, called⟩
  else .error .unsupportedKernelFile

/-- the tables, names and segments of a kernel are inside the file, and its segments do not go where the file was
read to -/
structure Fits (size : Nat) : Prop where
  inMemory : buffer + size ≤ 2^32
  table : (KernelHeader.ofBuffer f).ePhoff + 96 ≤ size
  inFile : ∀ i < 3, (pieceOf f i).src + (pieceOf f i).count ≤ size
  apart : ∀ i < 3, (pieceOf f i).dest + (pieceOf f i).count ≤ buffer ∨
    buffer + size ≤ (pieceOf f i).dest ∧ (pieceOf f i).dest + (pieceOf f i).count ≤ 2^32
  sections : (KernelHeader.ofBuffer f).eShoff + 40 * (KernelHeader.ofBuffer f).eShnum ≤ size
  namesEntry : (KernelHeader.ofBuffer f).eShoff + 40 * ((KernelHeader.ofBuffer f).eShstrndx + 1) ≤ size
  names : ∀ i < (KernelHeader.ofBuffer f).eShnum, nameOffset f i + 7 ≤ size
  functions : ∀ i < (KernelHeader.ofBuffer f).eShnum, (shentry f i).shAddr + (shentry f i).shSize ≤ 2^32

/-- the functions change neither the file in the buffer nor the table they are in -/
def Keeps (run : Nat → Mem → Mem) (size : Nat) : Prop :=
  ∀ a mem x, (buffer ≤ x ∧ x < buffer + size ∨ ∃ i < (KernelHeader.ofBuffer f).eShnum, isCtors f i = true ∧
    (shentry f i).shAddr ≤ x ∧ x < (shentry f i).shAddr + (shentry f i).shSize) → run a mem x = mem x

end

/-! ## the file in the buffer -/

section
variable {f mem : Mem} {size : Nat}

end

/-! ## the functions -/

section
variable {f : Mem} {size : Nat} {run : Nat → Mem → Mem}

end

/-! ## from the buffer on -/

section
variable {f mem : Mem} {size : Nat} {run : Nat → Mem → Mem}

end

/-! ## from the disk on -/

end Boot
end StarOS
