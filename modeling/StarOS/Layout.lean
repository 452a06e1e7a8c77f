import Mathlib.Tactic.Ring

/-!
# Machine words and the memory layout of the kernel (`kernel.h`, `kernel.ld`)

Machine words are natural numbers; where the arithmetic of the source can leave the word, the
model reduces with `wrap32` (or `wrap64`), which is what unsigned arithmetic does.

The constants are those of `kernel.h`, under the source's names.
-/

namespace StarOS

/-- the value an expression of type `uint32_t` has when its exact value is `n` -/
def wrap32 (n : Nat) : Nat := n % 2^32

/-- the value an expression of type `uint64_t` has when its exact value is `n` -/
def wrap64 (n : Nat) : Nat := n % 2^64

theorem wrap32_of_lt {n : Nat} (h : n < 2^32) : wrap32 n = n := Nat.mod_eq_of_lt h

theorem wrap64_of_lt {n : Nat} (h : n < 2^64) : wrap64 n = n := Nat.mod_eq_of_lt h

/-! ## memory regions -/

def textMemoryStart : Nat := 0x40005000
def textMemoryLength : Nat := 0xc800000
def rodataMemoryStart : Nat := textMemoryStart + textMemoryLength
def rodataMemoryLength : Nat := 0x6400000
def dataMemoryStart : Nat := rodataMemoryStart + rodataMemoryLength
def dataMemoryLength : Nat := 0x6400000
def dataMemoryEnd : Nat := dataMemoryStart + dataMemoryLength
def freeMemoryStart : Nat := dataMemoryEnd
def freeMemoryLength : Nat := 1024 * 1024 * 500
def freeMemoryPageStart : Nat := freeMemoryStart + freeMemoryLength
def freeMemoryPageLength : Nat := 1024 * 1024 * 100
def pageSize : Nat := 1024 * 4

theorem freeMemoryStart_eq : freeMemoryStart = 0x59005000 := rfl
theorem freeMemoryLength_eq : freeMemoryLength = 0x1f400000 := rfl
theorem freeMemoryPageStart_eq : freeMemoryPageStart = 0x78405000 := rfl
theorem freeMemoryPageLength_eq : freeMemoryPageLength = 0x6400000 := rfl
theorem pageSize_eq : pageSize = 4096 := rfl

/-- an address of the section `.data` of `kernel.ld`, which also holds `.bss` -/
abbrev DataAddress := {p : Nat // dataMemoryStart ≤ p ∧ p ≤ dataMemoryEnd}

end StarOS
