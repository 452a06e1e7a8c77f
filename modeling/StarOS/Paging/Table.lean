import StarOS.Layout
import StarOS.Strings

/-!
# Page tables (`paging.cpp`, `alloc_page` of `stdlib.cpp`)

Page directories and page tables are 1024 little-endian words in physical memory; `PTE` is one
word of them, taken apart into its bit fields (`PTE.decode`, `PTE.encode`).

* `allocPage`          the next page of the pool, cleared;
* `addMemoryMapping`   map one page in a directory; `none` is the halt on a misaligned address;
* `checkAddressMapping`   the two-level walk; `none` where the source prints "not mapped".

The pages of the pool are handed out by a pointer that only grows (`freeMemoryPage`).
-/

namespace StarOS
open Lib

/-- `struct PTE`, field by field -/
structure PTE where
  p : Bool
  rwBit : Bool
  userOrSupervisor : Bool
  reserved1 : Fin 4
  access : Bool
  dirty : Bool
  reserved2 : Fin 4
  avail : Fin 8
  address : Fin (2^20)
deriving DecidableEq

namespace PTE

def encode (e : PTE) : Nat :=
  e.p.toNat + 2 * e.rwBit.toNat + 4 * e.userOrSupervisor.toNat + 8 * e.reserved1.val
    + 32 * e.access.toNat + 64 * e.dirty.toNat + 128 * e.reserved2.val + 512 * e.avail.val
    + 4096 * e.address.val

def decode (w : Nat) : PTE where
  p := w % 2 == 1
  rwBit := w / 2 % 2 == 1
  userOrSupervisor := w / 4 % 2 == 1
  reserved1 := Fin.ofNat 4 (w / 8)
  access := w / 32 % 2 == 1
  dirty := w / 64 % 2 == 1
  reserved2 := Fin.ofNat 4 (w / 128)
  avail := Fin.ofNat 8 (w / 512)
  address := Fin.ofNat (2^20) (w / 4096)

/-- the entry `add_memory_mapping` builds for the page or table at `addr` -/
def present (userLevel : Bool) (addr : Nat) : PTE where
  p := true
  rwBit := true
  userOrSupervisor := userLevel
  reserved1 := 0
  access := false
  dirty := false
  reserved2 := 0
  avail := 0
  address := Fin.ofNat (2^20) (addr >>> 12)

theorem encode_lt (e : PTE) : e.encode < 2^32 := by
  have h1 := e.p.toNat_le
  have h2 := e.rwBit.toNat_le
  have h3 := e.userOrSupervisor.toNat_le
  have h4 := e.access.toNat_le
  have h5 := e.dirty.toNat_le
  have h6 := e.reserved1.isLt
  have h7 := e.reserved2.isLt
  have h8 := e.avail.isLt
  have h9 := e.address.isLt
  unfold encode
  omega

/-- an entry keeps all its fields in memory -/
theorem decode_encode (e : PTE) : decode e.encode = e := by
  obtain ⟨p, rw, u, ⟨r1, h1⟩, a, d, ⟨r2, h2⟩, ⟨av, h3⟩, ⟨ad, h4⟩⟩ := e
  have hp := p.toNat_le
  have hrw := rw.toNat_le
  have hu := u.toNat_le
  have ha := a.toNat_le
  have hd := d.toNat_le
  have hbit : ∀ (b : Bool) (n : Nat), n = b.toNat → (n == 1) = b := by
    intro b n h
    subst h
    cases b <;> rfl
  simp only [decode, encode, mk.injEq, Fin.ext_iff, Fin.val_ofNat]
  refine ⟨hbit _ _ ?_, hbit _ _ ?_, hbit _ _ ?_, ?_, hbit _ _ ?_, hbit _ _ ?_, ?_, ?_, ?_⟩ <;> omega

theorem present_p (userLevel : Bool) (addr : Nat) :
    (decode (present userLevel addr).encode).p = true := by
  have h : (present userLevel addr).encode % 2 = 1 := by
    cases userLevel <;> simp only [encode, present, Bool.toNat_true, Bool.toNat_false,
      Fin.val_zero] <;> omega
  simp only [decode, h]
  rfl

/-- the frame number survives the bit fields -/
theorem present_address (userLevel : Bool) {addr : Nat} (h : addr < 2^32) (ha : addr % 4096 = 0) :
    (decode (present userLevel addr).encode).address.val * 4096 = addr := by
  have hs : addr >>> 12 = addr / 4096 := Nat.shiftRight_eq_div_pow addr 12
  have hv : (Fin.ofNat (2^20) (addr >>> 12)).val = addr / 4096 := by
    rw [hs]
    exact Nat.mod_eq_of_lt (by omega)
  have he : (present userLevel addr).encode / 4096 = addr / 4096 := by
    cases userLevel <;> simp only [encode, present, Bool.toNat_true, Bool.toNat_false,
      Fin.val_zero, hv] <;> omega
  show (present userLevel addr).encode / 4096 % 2^20 * 4096 = addr
  rw [he]
  omega

end PTE

/-- physical memory and the pool of pages -/
structure Paging where
  mem : Mem
  freeMemoryPage : Nat

/-- `while (free_memory_page % PAGE_SIZE) free_memory_page++` -/
def alignPage (p : Nat) : Nat := if p % pageSize = 0 then p else p + (pageSize - p % pageSize)

/-- `alloc_page`: the page, and the state after it -/
def allocPage (s : Paging) : Nat × Paging :=
  let allocated := wrap32 (alignPage s.freeMemoryPage)
  (allocated, ⟨zeromem s.mem allocated pageSize, wrap32 (allocated + pageSize)⟩)

/-- entry `i` of the directory or table at `table` -/
def Paging.entry (s : Paging) (table i : Nat) : PTE := PTE.decode (read32 s.mem (table + 4 * i))

def Paging.setEntry (s : Paging) (table i : Nat) (e : PTE) : Paging :=
  { s with mem := write32 s.mem (table + 4 * i) e.encode }

/-- high 10 bits -/
def dirIndex (address : Nat) : Nat := address >>> 22

/-- middle 10 bits -/
def tableIndex (address : Nat) : Nat := (address >>> 12) &&& 0b1111111111

/-- the page table a directory entry points to -/
def PTE.table (e : PTE) : Nat := e.address.val <<< 12

/-- the part of `add_memory_mapping` that allocates a missing page table -/
def ensureTable (s : Paging) (linear directory : Nat) (userLevel : Bool) : Paging :=
  if (s.entry directory (dirIndex linear)).p then s
  else
    let r := allocPage s
    r.2.setEntry directory (dirIndex linear) (PTE.present userLevel r.1)

/-- `add_memory_mapping` -/
def addMemoryMapping (s : Paging) (linear physical directory : Nat) (userLevel : Bool) :
    Option Paging :=
  if linear &&& 0b111111111111 ≠ 0 ∨ physical &&& 0b111111111111 ≠ 0 then none
  else
    let s := ensureTable s linear directory userLevel
    some (s.setEntry (s.entry directory (dirIndex linear)).table (tableIndex linear)
      (PTE.present userLevel physical))

/-- `check_address_mapping`, returning the address it prints -/
def checkAddressMapping (s : Paging) (address directory : Nat) : Option Nat :=
  let dirEntry := s.entry directory (dirIndex address)
  if !dirEntry.p then none
  else
    let entry := s.entry dirEntry.table (tableIndex address)
    if !entry.p then none
    else some ((entry.address.val <<< 12) + (address &&& 0xfff))

/-! ## bit slices -/

theorem dirIndex_eq (a : Nat) : dirIndex a = a / 4194304 := Nat.shiftRight_eq_div_pow a 22

theorem tableIndex_eq (a : Nat) : tableIndex a = a / 4096 % 1024 := by
  show (a >>> 12) &&& (2^10 - 1) = _
  rw [Nat.and_two_pow_sub_one_eq_mod, Nat.shiftRight_eq_div_pow]

theorem and_fff (a : Nat) : a &&& 0xfff = a % 4096 := Nat.and_two_pow_sub_one_eq_mod a 12

theorem PTE.table_eq (e : PTE) : e.table = e.address.val * 4096 := Nat.shiftLeft_eq _ _

theorem tableIndex_lt (a : Nat) : tableIndex a < 1024 := by
  rw [tableIndex_eq]
  omega

/-- the two indices together are the page number -/
theorem index_eq_iff (a b : Nat) :
    (dirIndex a = dirIndex b ∧ tableIndex a = tableIndex b) ↔ a / 4096 = b / 4096 := by
  rw [dirIndex_eq, dirIndex_eq, tableIndex_eq, tableIndex_eq]
  omega

/-! ## entries after a store -/

theorem entry_setEntry (s : Paging) (t i : Nat) (e : PTE) :
    (s.setEntry t i e).entry t i = PTE.decode e.encode := by
  show PTE.decode (read32 (write32 _ _ _) _) = _
  rw [read32_write32 e.encode_lt]

theorem entry_setEntry_apart (s : Paging) {t i t' i' : Nat} (e : PTE)
    (h : t + 4 * i + 4 ≤ t' + 4 * i' ∨ t' + 4 * i' + 4 ≤ t + 4 * i) :
    (s.setEntry t' i' e).entry t i = s.entry t i := by
  show PTE.decode (read32 (write32 _ _ _) _) = _
  rw [read32_write32_apart h]
  rfl

/-- the memory of two states agrees on the page at `t` -/
theorem entry_congr {s s' : Paging} {t i : Nat}
    (h : ∀ x, t ≤ x → x < t + 4096 → s.mem x = s'.mem x) (hi : i < 1024) :
    s.entry t i = s'.entry t i := by
  show PTE.decode (read32 _ _) = PTE.decode (read32 _ _)
  rw [read32_congr fun x h1 h2 => h x (by omega) (by omega)]

end StarOS
