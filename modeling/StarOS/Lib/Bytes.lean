import Mathlib.Tactic.Ring
import Mathlib.Data.Nat.Basic

/-!
# Byte memories and little-endian words

A memory is a function from addresses to bytes.  `read16`, `read32`, `write16` and `write32` are
the little-endian accesses of a 32-bit machine; `writeByte` stores one byte.

* `read32_write32`         a word is read back;
* `read32_write32_apart`   a store leaves every word alone that it does not overlap;
* `read32_congr`           a word depends on its four bytes only;
* `byteOf`, `read32_of_bytes`   a word from its bytes;
* `write16_apply`          the two bytes of a half word.
-/

namespace Lib

abbrev Mem := Nat → UInt8

def writeByte (m : Mem) (a : Nat) (b : UInt8) : Mem := fun x => if x = a then b else m x

def read16 (m : Mem) (a : Nat) : Nat := (m a).toNat + 256 * (m (a + 1)).toNat

def read32 (m : Mem) (a : Nat) : Nat :=
  (m a).toNat + 256 * (m (a + 1)).toNat + 65536 * (m (a + 2)).toNat + 16777216 * (m (a + 3)).toNat

def write32 (m : Mem) (a w : Nat) : Mem := fun x =>
  if x = a then UInt8.ofNat w
  else if x = a + 1 then UInt8.ofNat (w / 256)
  else if x = a + 2 then UInt8.ofNat (w / 65536)
  else if x = a + 3 then UInt8.ofNat (w / 16777216)
  else m x

def write16 (m : Mem) (a w : Nat) : Mem := fun x =>
  if x = a then UInt8.ofNat w
  else if x = a + 1 then UInt8.ofNat (w / 256)
  else m x

/-- byte `i` of a word -/
def byteOf (w i : Nat) : UInt8 := UInt8.ofNat (w / 256^i)

theorem write32_apart {m : Mem} {a w x : Nat} (h : x < a ∨ a + 4 ≤ x) : write32 m a w x = m x := by
  have h0 : x ≠ a := by omega
  have h1 : x ≠ a + 1 := by omega
  have h2 : x ≠ a + 2 := by omega
  have h3 : x ≠ a + 3 := by omega
  simp only [write32, h0, h1, h2, h3, if_false]

theorem read32_congr {m m' : Mem} {a : Nat} (h : ∀ x, a ≤ x → x < a + 4 → m x = m' x) :
    read32 m a = read32 m' a := by
  unfold read32
  rw [h a (by omega) (by omega), h (a + 1) (by omega) (by omega), h (a + 2) (by omega) (by omega),
    h (a + 3) (by omega) (by omega)]

theorem read32_lt (m : Mem) (a : Nat) : read32 m a < 2^32 := by
  have h0 := (m a).toNat_lt
  have h1 := (m (a + 1)).toNat_lt
  have h2 := (m (a + 2)).toNat_lt
  have h3 := (m (a + 3)).toNat_lt
  unfold read32
  omega

theorem read32_write32 {m : Mem} {a w : Nat} (hw : w < 2^32) : read32 (write32 m a w) a = w := by
  have h1 : a + 1 ≠ a := by omega
  have h2 : a + 2 ≠ a := by omega
  have h3 : a + 3 ≠ a := by omega
  have h21 : a + 2 ≠ a + 1 := by omega
  have h31 : a + 3 ≠ a + 1 := by omega
  have h32 : a + 3 ≠ a + 2 := by omega
  simp only [read32, write32, h1, h2, h3, h21, h31, h32, if_true, if_false, UInt8.toNat_ofNat']
  omega

theorem read32_write32_apart {m : Mem} {a b w : Nat} (h : a + 4 ≤ b ∨ b + 4 ≤ a) :
    read32 (write32 m b w) a = read32 m a :=
  read32_congr fun _ _ _ => write32_apart (by omega)

theorem read32_zero {m : Mem} {a : Nat} (h : ∀ x, a ≤ x → x < a + 4 → m x = 0) : read32 m a = 0 := by
  unfold read32
  rw [h a (by omega) (by omega), h (a + 1) (by omega) (by omega), h (a + 2) (by omega) (by omega),
    h (a + 3) (by omega) (by omega)]
  rfl

theorem read32_of_bytes {m : Mem} {a w : Nat} (hw : w < 2^32) (h : ∀ i, i < 4 → m (a + i) = byteOf w i) :
    read32 m a = w := by
  unfold read32
  rw [← Nat.add_zero a, Nat.add_assoc, Nat.add_assoc, Nat.add_assoc, h 0 (by omega), h (0 + 1) (by omega),
    h (0 + 2) (by omega), h (0 + 3) (by omega)]
  simp only [byteOf, UInt8.toNat_ofNat']
  omega

/-- a half word of two given bytes -/
theorem write16_apply (m : Mem) (a : Nat) (lo hi : UInt8) (x : Nat) :
    write16 m a (256 * hi.toNat + lo.toNat) x
      = if x = a then lo else if x = a + 1 then hi else m x := by
  have h1 := lo.toNat_lt
  have h2 := hi.toNat_lt
  have elo : UInt8.ofNat (256 * hi.toNat + lo.toNat) = lo := by
    apply UInt8.toNat_inj.mp
    rw [UInt8.toNat_ofNat']
    omega
  have ehi : UInt8.ofNat ((256 * hi.toNat + lo.toNat) / 256) = hi := by
    apply UInt8.toNat_inj.mp
    rw [UInt8.toNat_ofNat']
    omega
  rw [write16, elo, ehi]

end Lib
