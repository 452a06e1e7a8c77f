import StarOS.Lib.Bytes

/-!
# Strings and memory routines (`b32_string.cpp`)

`strcmp` compares two arrays of `n` bytes; it is `none` if it would read past them.  `char` is
signed.  `strcmp_common`: it goes on behind what the arrays have in common.

`memset dest ch count` goes upwards byte by byte, `zeromem dest count` clears whole words first and the
remaining bytes after them.  `zeromem_apply`: the bytes `dest .. dest + count` are zero, every other byte
is unchanged; `zeromem_eq_memset`: **so `zeromem` is `memset` with 0**.  Addresses are natural numbers, as the
range does not wrap.

`memcpy` goes upwards byte by byte.  `memcpy_apply`: where the source is not overwritten before it is
read, the destination holds what the source held.
-/

namespace StarOS
open Lib

/-- the memory a pointer moved by `n` points to -/
def advance (p : Mem) (n : Nat) : Mem := fun i => p (n + i)

def strcmp : Nat → Mem → Mem → Option Int
  | 0, _, _ => none
  | n + 1, lhs, rhs =>
    if lhs 0 ≠ 0 ∧ rhs 0 ≠ 0 then
      if lhs 0 = rhs 0 then strcmp n (advance lhs 1) (advance rhs 1)
      else if (lhs 0).toInt8 < (rhs 0).toInt8 then some (-1)
      else some 1
    else if lhs 0 = 0 ∧ rhs 0 = 0 then some 0
    else if lhs 0 = 0 then some (-1)
    else some 1

theorem strcmp_next {n : Nat} {lhs rhs : Mem} (hl : lhs 0 ≠ 0) (h : lhs 0 = rhs 0) :
    strcmp (n + 1) lhs rhs = strcmp n (advance lhs 1) (advance rhs 1) := by
  rw [strcmp, if_pos ⟨hl, h ▸ hl⟩, if_pos h]

/-- the comparison goes on behind what the arrays have in common -/
theorem strcmp_common {i n : Nat} {lhs rhs : Mem} (h0 : ∀ j < i, lhs j ≠ 0) (h : ∀ j < i, lhs j = rhs j) :
    strcmp (i + n) lhs rhs = strcmp n (advance lhs i) (advance rhs i) := by
  induction i generalizing lhs rhs with
  | zero =>
    have e : ∀ p : Mem, advance p 0 = p := fun p => funext fun x => congrArg p (Nat.zero_add x)
    rw [Nat.zero_add, e, e]
  | succ i ih =>
    have e : ∀ p : Mem, advance (advance p 1) i = advance p (i + 1) := fun p => funext fun x =>
      congrArg p (by omega : 1 + (i + x) = i + 1 + x)
    rw [Nat.add_right_comm, strcmp_next (h0 0 (by omega)) (h 0 (by omega)), ih, e, e]
    · exact fun j hj => h0 (1 + j) (by omega)
    · exact fun j hj => h (1 + j) (by omega)

theorem strcmp_same {n i : Nat} {lhs rhs : Mem} (hi : i < n) (h0 : ∀ j < i, lhs j ≠ 0)
    (h : ∀ j ≤ i, lhs j = rhs j) (hend : lhs i = 0) : strcmp n lhs rhs = some 0 := by
  obtain ⟨n, rfl⟩ : ∃ m, n = i + (m + 1) := ⟨n - i - 1, by omega⟩
  have hr : rhs i = 0 := (h i (Nat.le_refl i)).symm.trans hend
  rw [strcmp_common h0 fun j hj => h j (Nat.le_of_lt hj), strcmp, if_neg (fun hn => hn.1 hend)]
  exact if_pos ⟨hend, hr⟩

theorem strcmp_differ {n i : Nat} {lhs rhs : Mem} (hi : i < n) (h0 : ∀ j < i, lhs j ≠ 0)
    (h : ∀ j < i, lhs j = rhs j) (hne : lhs i ≠ rhs i) : ∃ r, r ≠ 0 ∧ strcmp n lhs rhs = some r := by
  obtain ⟨n, rfl⟩ : ∃ m, n = i + (m + 1) := ⟨n - i - 1, by omega⟩
  have hne : advance lhs i 0 ≠ advance rhs i 0 := hne
  rw [strcmp_common h0 h, strcmp]
  by_cases hl : advance lhs i 0 = 0
  · have hr : advance rhs i 0 ≠ 0 := fun hr => hne (hl.trans hr.symm)
    rw [if_neg (fun hn => hn.1 hl), if_neg (fun hn => hr hn.2), if_pos hl]
    exact ⟨-1, by decide, rfl⟩
  · by_cases hr : advance rhs i 0 = 0
    · rw [if_neg (fun hn => hn.2 hr), if_neg (fun hn => hl hn.1), if_neg hl]
      exact ⟨1, by decide, rfl⟩
    · rw [if_pos ⟨hl, hr⟩, if_neg hne]
      split
      · exact ⟨-1, by decide, rfl⟩
      · exact ⟨1, by decide, rfl⟩

/-- two arrays without a null byte are compared past their end -/
theorem strcmp_past {n : Nat} {lhs rhs : Mem} (h0 : ∀ j < n, lhs j ≠ 0) (h : ∀ j < n, lhs j = rhs j) :
    strcmp n lhs rhs = none := by
  have hpast := strcmp_common (n := 0) h0 h
  rwa [Nat.add_zero] at hpast

/-- `n` rounds of `buffer[i] = ch` -/
def memset (m : Mem) (dest : Nat) (ch : UInt8) : Nat → Mem
  | 0 => m
  | n + 1 => writeByte (memset m dest ch n) (dest + n) ch

/-- `n` rounds of `buffer[i] = 0` on words -/
def zeroWords (m : Mem) (dest : Nat) : Nat → Mem
  | 0 => m
  | n + 1 => write32 (zeroWords m dest n) (dest + 4 * n) 0

/-- `n` rounds of `rest_buffer[i] = 0` on bytes -/
def zeroBytes (m : Mem) (dest : Nat) : Nat → Mem
  | 0 => m
  | n + 1 => writeByte (zeroBytes m dest n) (dest + n) 0

def zeromem (m : Mem) (dest count : Nat) : Mem :=
  let fourByteCount := count / 4
  let reminder := count % 4
  zeroBytes (zeroWords m dest fourByteCount) (dest + fourByteCount * 4) reminder

theorem memset_apply (m : Mem) (dest n x : Nat) (ch : UInt8) :
    memset m dest ch n x = if dest ≤ x ∧ x < dest + n then ch else m x := by
  induction n with
  | zero =>
    rw [if_neg (by omega)]
    rfl
  | succ n ih =>
    show (if x = dest + n then ch else memset m dest ch n x) = _
    by_cases h : x = dest + n
    · rw [if_pos h, if_pos (by omega)]
    · rw [if_neg h, ih]
      have e : (dest ≤ x ∧ x < dest + n) ↔ (dest ≤ x ∧ x < dest + (n + 1)) := by omega
      simp only [e]

theorem zeroWords_apply (m : Mem) (dest n x : Nat) :
    zeroWords m dest n x = if dest ≤ x ∧ x < dest + 4 * n then 0 else m x := by
  induction n with
  | zero =>
    rw [if_neg (by omega)]
    rfl
  | succ n ih =>
    show write32 (zeroWords m dest n) (dest + 4 * n) 0 x = _
    by_cases h : dest + 4 * n ≤ x ∧ x < dest + 4 * n + 4
    · rw [if_pos (by omega)]
      have h' : x = dest + 4 * n ∨ x = dest + 4 * n + 1 ∨ x = dest + 4 * n + 2 ∨
        x = dest + 4 * n + 3 := by omega
      rcases h' with rfl | rfl | rfl | rfl <;> simp [write32]
    · rw [write32_apart (by omega), ih]
      have e : (dest ≤ x ∧ x < dest + 4 * n) ↔ (dest ≤ x ∧ x < dest + 4 * (n + 1)) := by omega
      simp only [e]

theorem zeroBytes_eq (m : Mem) (dest n : Nat) : zeroBytes m dest n = memset m dest 0 n := by
  induction n with
  | zero => rfl
  | succ n ih => rw [zeroBytes, memset, ih]

theorem zeroBytes_apply (m : Mem) (dest n x : Nat) :
    zeroBytes m dest n x = if dest ≤ x ∧ x < dest + n then 0 else m x := by
  rw [zeroBytes_eq, memset_apply]

theorem zeromem_apply (m : Mem) (dest count x : Nat) :
    zeromem m dest count x = if dest ≤ x ∧ x < dest + count then 0 else m x := by
  show zeroBytes (zeroWords m dest (count / 4)) (dest + count / 4 * 4) (count % 4) x = _
  rw [zeroBytes_apply, zeroWords_apply]
  by_cases h : dest ≤ x ∧ x < dest + count
  · rw [if_pos h]
    by_cases h1 : dest + count / 4 * 4 ≤ x
    · rw [if_pos (by omega)]
    · rw [if_neg (by omega), if_pos (by omega)]
  · rw [if_neg h, if_neg (by omega), if_neg (by omega)]

/-- **`zeromem` leaves the memory that `memset` with 0 leaves: the bytes of the range are zero, every other
byte is unchanged.** -/
theorem zeromem_eq_memset (m : Mem) (dest count : Nat) :
    zeromem m dest count = memset m dest 0 count ∧
      ∀ x, zeromem m dest count x = if dest ≤ x ∧ x < dest + count then 0 else m x := by
  refine ⟨?_, zeromem_apply m dest count⟩
  funext x
  rw [zeromem_apply, memset_apply]

def memcpy (m : Mem) (dest src : Nat) : Nat → Mem
  | 0 => m
  | count + 1 => memcpy (writeByte m dest (m src)) (dest + 1) (src + 1) count

theorem memcpy_apply (m : Mem) {dest src count : Nat} (h : dest ≤ src ∨ src + count ≤ dest) (x : Nat) :
    memcpy m dest src count x = if dest ≤ x ∧ x < dest + count then m (src + (x - dest)) else m x := by
  induction count generalizing m dest src with
  | zero =>
    rw [if_neg (by omega)]
    rfl
  | succ n ih =>
    show memcpy (writeByte m dest (m src)) (dest + 1) (src + 1) n x = _
    rw [ih _ (by omega)]
    by_cases hx : dest + 1 ≤ x ∧ x < dest + 1 + n
    · have e : src + 1 + (x - (dest + 1)) = src + (x - dest) := by omega
      rw [if_pos hx, if_pos (by omega), e, writeByte, if_neg (by omega)]
    · rw [if_neg hx, writeByte]
      by_cases hd : x = dest
      · rw [if_pos hd, if_pos (by omega), hd, Nat.sub_self, Nat.add_zero]
      · rw [if_neg hd, if_neg (by omega)]

end StarOS
