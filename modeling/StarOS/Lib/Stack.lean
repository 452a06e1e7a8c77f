import StarOS.Lib.Bytes

/-!
# A stack of words that grows downwards in a byte memory

* `WordStack`          the stack pointer and the memory; `push`, `pushes`, and `word i`, the word `i` from
                       the top;
* `pushes_sp`          where the pointer is after some words;
* `pushes_word`        the words read back, the last one first, and behind them what was there before;
* `pushes_apart`       the bytes outside are unchanged.

The lemmas ask for room below the pointer: it does not go round at 0.
-/

namespace Lib

structure WordStack where
  sp : UInt32
  mem : Mem

namespace WordStack

def push (s : WordStack) (w : UInt32) : WordStack := ⟨s.sp - 4, write32 s.mem (s.sp - 4).toNat w.toNat⟩

/-- the words of a list, one after the other -/
def pushes (s : WordStack) (ws : List UInt32) : WordStack := ws.foldl push s

/-- word `i` from the top -/
def word (s : WordStack) (i : Nat) : UInt32 := UInt32.ofNat (read32 s.mem (s.sp.toNat + 4 * i))

/-- a pointer further up -/
theorem word_add {sp : UInt32} {mem : Mem} {k : Nat} (h : sp.toNat + 4 * k < 2^32) (i : Nat) :
    word ⟨sp + UInt32.ofNat (4 * k), mem⟩ i = word ⟨sp, mem⟩ (k + i) := by
  have hsp : (sp + UInt32.ofNat (4 * k)).toNat = sp.toNat + 4 * k := by
    rw [UInt32.toNat_add, UInt32.toNat_ofNat', Nat.add_mod_mod]
    exact Nat.mod_eq_of_lt h
  show UInt32.ofNat (read32 mem ((sp + UInt32.ofNat (4 * k)).toNat + 4 * i)) = _
  rw [hsp, Nat.add_assoc, ← Nat.mul_add]
  rfl

theorem pushes_append (s : WordStack) (as bs : List UInt32) : s.pushes (as ++ bs) = (s.pushes as).pushes bs :=
  List.foldl_append

section
variable {s : WordStack}

theorem push_sp (h : 4 ≤ s.sp.toNat) (w : UInt32) : (s.push w).sp.toNat = s.sp.toNat - 4 := by
  have hle : (4 : UInt32) ≤ s.sp := h
  exact UInt32.toNat_sub_of_le _ _ hle

theorem push_word_zero (s : WordStack) (w : UInt32) : (s.push w).word 0 = w := by
  show UInt32.ofNat (read32 (write32 s.mem (s.sp - 4).toNat w.toNat) ((s.sp - 4).toNat + 4 * 0)) = w
  rw [Nat.mul_zero, Nat.add_zero, read32_write32 w.toNat_lt]
  exact UInt32.ofNat_toNat

theorem push_word_succ (h : 4 ≤ s.sp.toNat) (w : UInt32) (i : Nat) : (s.push w).word (i + 1) = s.word i := by
  have hsp := push_sp h w
  have e : (s.push w).sp.toNat + 4 * (i + 1) = s.sp.toNat + 4 * i := by omega
  rw [word, e]
  have hapart : s.sp.toNat + 4 * i + 4 ≤ (s.push w).sp.toNat ∨ (s.push w).sp.toNat + 4 ≤ s.sp.toNat + 4 * i := by omega
  exact congrArg UInt32.ofNat (read32_write32_apart hapart)

theorem push_apart (h : 4 ≤ s.sp.toNat) (w : UInt32) {x : Nat} (hx : x < s.sp.toNat - 4 ∨ s.sp.toNat ≤ x) :
    (s.push w).mem x = s.mem x := by
  have hsp := push_sp h w
  refine write32_apart ?_
  show x < (s.push w).sp.toNat ∨ (s.push w).sp.toNat + 4 ≤ x
  omega

theorem pushes_sp (ws : List UInt32) (h : 4 * ws.length ≤ s.sp.toNat) :
    (s.pushes ws).sp.toNat = s.sp.toNat - 4 * ws.length := by
  induction ws generalizing s with
  | nil => rfl
  | cons w ws ih =>
    rw [List.length_cons] at h ⊢
    have hsp := push_sp (s := s) (by omega) w
    have hrest := ih (s := s.push w) (by omega)
    show ((s.push w).pushes ws).sp.toNat = _
    omega

theorem pushes_sp_sub (s : WordStack) (ws : List UInt32) :
    (s.pushes ws).sp = s.sp - 4 * UInt32.ofNat ws.length := by
  induction ws generalizing s with
  | nil => exact (UInt32.sub_zero s.sp).symm
  | cons w ws ih =>
    show ((s.push w).pushes ws).sp = _
    have hpush : (s.push w).sp = s.sp - 4 := rfl
    rw [ih, hpush, List.length_cons, UInt32.ofNat_add]
    grind

/-- the words that were pushed, the last one first, then the words that were there -/
theorem pushes_word (ws : List UInt32) (h : 4 * ws.length ≤ s.sp.toNat) (i : Nat) :
    (s.pushes ws).word i = ws.reverse[i]?.getD (s.word (i - ws.length)) := by
  induction ws generalizing s with
  | nil => rfl
  | cons w ws ih =>
    rw [List.length_cons] at h ⊢
    have hsp := push_sp (s := s) (by omega) w
    show ((s.push w).pushes ws).word i = _
    rw [ih (by omega), List.reverse_cons]
    rcases Nat.lt_trichotomy i ws.length with hlt | rfl | hgt
    · have hr : i < ws.reverse.length := by rwa [List.length_reverse]
      rw [List.getElem?_append_left hr, List.getElem?_eq_getElem hr, Option.getD_some, Option.getD_some]
    · have hr : ws.reverse.length = ws.length := List.length_reverse
      rw [List.getElem?_append_right (by omega), hr, Nat.sub_self, List.getElem?_eq_none (by omega)]
      exact push_word_zero s w
    · have hr : ws.reverse.length = ws.length := List.length_reverse
      have e : i - ws.length = i - (ws.length + 1) + 1 := by omega
      rw [List.getElem?_append_right (by omega), List.getElem?_eq_none (by omega),
        List.getElem?_eq_none (by rw [List.length_singleton]; omega), Option.getD_none, Option.getD_none, e]
      exact push_word_succ (by omega) w _

theorem pushes_apart (ws : List UInt32) (h : 4 * ws.length ≤ s.sp.toNat) {x : Nat}
    (hx : x < s.sp.toNat - 4 * ws.length ∨ s.sp.toNat ≤ x) : (s.pushes ws).mem x = s.mem x := by
  induction ws generalizing s with
  | nil => rfl
  | cons w ws ih =>
    rw [List.length_cons] at h hx
    have hsp := push_sp (s := s) (by omega) w
    show ((s.push w).pushes ws).mem x = _
    rw [ih (by omega) (by omega), push_apart (by omega) w (by omega)]

end

end WordStack
end Lib
