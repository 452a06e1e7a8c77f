import StarOS.Paging.Refine
import StarOS.Kernel.Copy

/-!
# Page faults (`interrupt_handler`, vector 14)

The handler maps the page of the address in `cr2` to itself, in the kernel's directory.  The state of the
page tables is whatever a sequence of `TreeCall`s leads to: directories and pages are allocated, pages are
mapped, entries are copied from one directory to another, and bytes are stored outside the directories.

* `Role`, `Trees role s`   what each page is for; entry `j` of a directory leads to a page that is a table
                       for entry `j`;
* `ensureTable_walk`, `setEntry_walk`   the two parts of `add_memory_mapping`;
* `FaultServed`        what the handler is for;
* `fault_served_iff`   **the mask `~0x111` leaves an aligned address only if the bits `0xeee` of the address
                       are clear**; the handler halts on all others.
-/

namespace StarOS
open Lib

/-! ## the state of the page tables -/

inductive TreeCall where
  | newDirectory
  | newPage
  | map (i : Nat) (linear physical : UInt32) (userLevel : Bool)
  /-- entry of the slot of `start`, from directory `j` to directory `i` -/
  | copy (i j : Nat) (start : UInt32)
  | store (x : Nat) (byte : UInt8)

namespace Spaces

def treeCall (s : Spaces) : TreeCall → Option Spaces
  | .newDirectory => s.call .newDirectory
  | .newPage => some { s with paging := (allocPage s.paging).2 }
  | .map i linear physical userLevel => s.call (.map i linear physical userLevel)
  | .copy i j start => s.directories[i]?.bind fun d => s.directories[j]?.map fun d' =>
      { s with paging := Kernel.copyEntry d d' s.paging start }
  | .store x byte =>
    if ∃ d ∈ s.directories, d ≤ x ∧ x < d + pageSize then none
    else some { s with paging := { s.paging with mem := writeByte s.paging.mem x byte } }

def TreeStep (s : Spaces) (c : TreeCall) (t : Spaces) : Prop := s.treeCall c = some t ∧ t.InPool

end Spaces

/-- what a page was allocated for -/
inductive Role where
  | directory
  | table (slot : Nat)
deriving DecidableEq

structure Trees (role : Nat → Option Role) (s : Spaces) : Prop where
  aligned : s.paging.freeMemoryPage % 4096 = 0
  low : freeMemoryPageStart ≤ s.paging.freeMemoryPage
  frame : ∀ x r, role x = some r → s.paging.Frame x
  directory : ∀ d ∈ s.directories, role d = some .directory
  table : ∀ d ∈ s.directories, ∀ j < 1024, (s.paging.entry d j).p = true →
    role (s.paging.entry d j).table = some (.table j)

theorem trees_boot (mem : Mem) : Trees (fun _ => none) (Spaces.boot mem) where
  aligned := by
    show freeMemoryPageStart % 4096 = 0
    decide
  low := Nat.le_refl _
  frame := fun x r h => by cases h
  directory := fun d hd => absurd hd List.not_mem_nil
  table := fun d hd => absurd hd List.not_mem_nil

theorem Spaces.InPool.room {s : Spaces} (h : s.InPool) : s.paging.freeMemoryPage + 4096 < 2^32 := by
  simp only [Spaces.InPool, freeMemoryPageStart_eq, freeMemoryPageLength_eq] at h
  omega

section
variable {role : Nat → Option Role} {s : Spaces}

/-- two pages of different roles -/
theorem Trees.ne {x y : Nat} {r r' : Role} (hx : role x = some r) (hy : role y = some r') (hr : r ≠ r') :
    x ≠ y := by
  rintro rfl
  exact hr (Option.some.inj (hx.symm.trans hy))

/-- the next page of the pool has no role yet -/
theorem Trees.fresh (h : Trees role s) : role s.paging.freeMemoryPage = none := by
  by_contra hne
  obtain ⟨r, hr⟩ := Option.ne_none_iff_exists'.mp hne
  exact (h.frame _ r hr).fresh rfl

/-- the directories are stored to in no other way -/
theorem Trees.congr (h : Trees role s) {paging : Paging} (hfree : paging.freeMemoryPage = s.paging.freeMemoryPage)
    (hdir : ∀ d ∈ s.directories, ∀ j < 1024, paging.entry d j = s.paging.entry d j) :
    Trees role { s with paging := paging } := by
  refine ⟨hfree ▸ h.aligned, hfree ▸ h.low, fun x r hx => ?_, h.directory, fun d hd j hj hp => ?_⟩
  · have hf := h.frame x r hx
    exact frame_mono hf (Nat.le_of_eq hfree.symm)
  · change (paging.entry d j).p = true at hp
    show role (paging.entry d j).table = _
    rw [hdir d hd j hj] at hp ⊢
    exact h.table d hd j hj hp

/-- a page is allocated, with or without a role -/
theorem Trees.alloc (h : Trees role s) (hroom : s.paging.freeMemoryPage + 4096 < 2^32) (r : Option Role) :
    Trees (Function.update role s.paging.freeMemoryPage r) { s with paging := (allocPage s.paging).2 } := by
  have hold : ∀ x r', role x = some r' → Function.update role s.paging.freeMemoryPage r x = some r' := by
    intro x r' hx
    rw [Function.update_of_ne (h.frame x r' hx).fresh]
    exact hx
  rw [allocPage_eq h.aligned hroom]
  refine ⟨?_, ?_, ?_, ?_, ?_⟩
  · show (s.paging.freeMemoryPage + 4096) % 4096 = 0
    have := h.aligned
    omega
  · show freeMemoryPageStart ≤ s.paging.freeMemoryPage + 4096
    have := h.low
    omega
  · intro x r' hx
    by_cases e : x = s.paging.freeMemoryPage
    · subst e
      exact ⟨h.aligned, h.low, Nat.le_refl _⟩
    · rw [Function.update_of_ne e] at hx
      exact frame_mono (h.frame x r' hx) (Nat.le_add_right _ _)
  · exact fun d hd => hold d _ (h.directory d hd)
  · intro d hd j hj hp
    have hframe := h.frame d _ (h.directory d hd)
    simp only [entry_allocPage_old _ hframe hj] at hp ⊢
    exact hold _ _ (h.table d hd j hj hp)

/-- an entry of a directory is stored, and it leads to a table for it, if to any -/
theorem Trees.setEntry (h : Trees role s) {d j : Nat} (hd : d ∈ s.directories) (hj : j < 1024) (e : PTE)
    (he : e.p = true → role e.table = some (.table j)) :
    Trees role { s with paging := s.paging.setEntry d j e } := by
  refine ⟨h.aligned, h.low, h.frame, h.directory, fun d' hd' k hk hp => ?_⟩
  change ((s.paging.setEntry d j e).entry d' k).p = true at hp
  show role ((s.paging.setEntry d j e).entry d' k).table = _
  have hframe := h.frame d _ (h.directory d hd)
  have hframe' := h.frame d' _ (h.directory d' hd')
  by_cases hdd : d' = d
  · subst hdd
    by_cases hkj : k = j
    · subst hkj
      rw [entry_setEntry, PTE.decode_encode] at hp ⊢
      exact he hp
    · rw [entry_setEntry_apart _ _ (by omega)] at hp ⊢
      exact h.table d' hd' k hk hp
  · rw [entry_setEntry_frame _ hframe'.1 hframe.1 hdd hk hj] at hp ⊢
    exact h.table d' hd' k hk hp

/-- an entry of a table is stored -/
theorem Trees.setLeaf (h : Trees role s) {t i j : Nat} (ht : role t = some (.table i)) (hj : j < 1024) (e : PTE) :
    Trees role { s with paging := s.paging.setEntry t j e } := by
  refine h.congr rfl fun d hd k hk => ?_
  have hrole := h.directory d hd
  exact entry_setEntry_frame _ (h.frame d _ hrole).1 (h.frame t _ ht).1
    (Trees.ne hrole ht (by intro e; cases e)) hk hj

/-! ## `add_memory_mapping` -/

/-- after the first part there is a page table, and every address is translated as before -/
theorem ensureTable_walk (h : Trees role s) (hroom : s.paging.freeMemoryPage + 4096 < 2^32) {d linear : Nat}
    (hd : d ∈ s.directories) (hl : linear < 2^32) (userLevel : Bool) :
    ∃ role', Trees role' { s with paging := ensureTable s.paging linear d userLevel } ∧
      ((ensureTable s.paging linear d userLevel).entry d (dirIndex linear)).p = true ∧
      ∀ x < 2^32, checkAddressMapping (ensureTable s.paging linear d userLevel) x d
        = checkAddressMapping s.paging x d := by
  have hdl := dirIndex_lt hl
  cases hp0 : (s.paging.entry d (dirIndex linear)).p with
  | true =>
    have e : ensureTable s.paging linear d userLevel = s.paging := by simp [ensureTable, hp0]
    rw [e]
    exact ⟨role, h, hp0, fun x _ => rfl⟩
  | false =>
    have hframe := h.frame d _ (h.directory d hd)
    have ht := ensureTable_missing h.aligned hroom hframe hl userLevel hp0
    have hentry : (PTE.present userLevel s.paging.freeMemoryPage).table = s.paging.freeMemoryPage := by
      rw [← PTE.decode_encode (PTE.present userLevel s.paging.freeMemoryPage)]
      exact present_table userLevel h.aligned (by omega)
    -- the new page is a table for its slot
    have h1 := (h.alloc hroom (some (.table (dirIndex linear)))).setEntry hd hdl
      (PTE.present userLevel s.paging.freeMemoryPage) fun _ => by
        rw [hentry]
        exact Function.update_self _ _ _
    have e : ensureTable s.paging linear d userLevel
        = (allocPage s.paging).2.setEntry d (dirIndex linear) (PTE.present userLevel s.paging.freeMemoryPage) := by
      simp only [ensureTable, hp0, allocPage_eq h.aligned hroom]
      rfl
    refine ⟨_, e ▸ h1, ht.present, fun x hx => ht.walk hp0 hframe hx fun hp => ?_⟩
    have hx := h.table d hd _ (dirIndex_lt hx) hp
    exact ⟨h.frame _ _ hx, Trees.ne hx (h.directory d hd) (by simp)⟩

/-- the second part changes the translation of the page to the one asked for -/
theorem setEntry_walk (h : Trees role s) {d linear physical : Nat} (hd : d ∈ s.directories) (hl : linear < 2^32)
    (hp : physical < 2^32) (hpa : physical % 4096 = 0) (userLevel : Bool)
    (hpres : (s.paging.entry d (dirIndex linear)).p = true) {x : Nat} (hx : x < 2^32) :
    checkAddressMapping (s.paging.setEntry (s.paging.entry d (dirIndex linear)).table (tableIndex linear)
        (PTE.present userLevel physical)) x d
      = if x / 4096 = linear / 4096 then some (physical + x % 4096) else checkAddressMapping s.paging x d := by
  have hrole := h.directory d hd
  have ht := h.table d hd _ (dirIndex_lt hl) hpres
  have hidx := index_eq_iff x linear
  rw [walk_setLeaf (h.frame _ _ ht).1 (tableIndex_lt linear) hp hpa userLevel (h.frame d _ hrole).1
    (Trees.ne hrole ht (by simp)) hx]
  refine if_congr ⟨?_, fun hc => ?_⟩ rfl rfl
  · rintro ⟨hpx, htt, hti⟩
    -- a table is for one entry only
    have htx := h.table d hd _ (dirIndex_lt hx) hpx
    rw [htt, ht] at htx
    exact hidx.mp ⟨(Role.table.inj (Option.some.inj htx)).symm, hti⟩
  · obtain ⟨h1, h2⟩ := hidx.mpr hc
    rw [h1]
    exact ⟨hpres, rfl, h2⟩

/-- `add_memory_mapping` on aligned addresses -/
theorem addMemoryMapping_walk (h : Trees role s) (hroom : s.paging.freeMemoryPage + 4096 < 2^32) {d linear : Nat}
    {physical : Nat} (hd : d ∈ s.directories) (hl : linear < 2^32) (hla : linear % 4096 = 0)
    (hp : physical < 2^32) (hpa : physical % 4096 = 0) (userLevel : Bool) :
    ∃ paging role', addMemoryMapping s.paging linear physical d userLevel = some paging ∧
      Trees role' { s with paging := paging } ∧ ∀ x < 2^32, checkAddressMapping paging x d
        = if x / 4096 = linear / 4096 then some (physical + x % 4096) else checkAddressMapping s.paging x d := by
  obtain ⟨role', h1, hp1, hwalk⟩ := ensureTable_walk h hroom hd hl userLevel
  have ht := h1.table d hd _ (dirIndex_lt hl) hp1
  have hzero : ¬ (linear &&& 0b111111111111 ≠ 0 ∨ physical &&& 0b111111111111 ≠ 0) := by
    have e1 := and_fff linear
    have e2 := and_fff physical
    omega
  refine ⟨_, role', if_neg hzero, h1.setLeaf ht (tableIndex_lt linear) _, fun x hx => ?_⟩
  rw [← hwalk x hx]
  exact setEntry_walk h1 hd hl hp hpa userLevel hp1 hx

end

/-! ## runs -/

theorem trees_step {s t : Spaces} {c : TreeCall} (h : ∃ role, Trees role s ∧ s.InPool) (hs : s.TreeStep c t) :
    ∃ role, Trees role t ∧ t.InPool := by
  obtain ⟨role, h, hpool⟩ := h
  obtain ⟨hc, hpool'⟩ := hs
  have hroom := hpool.room
  cases c with
  | newDirectory =>
    cases hc
    have h1 := h.alloc hroom (some .directory)
    have hnew : (allocPage s.paging).1 = s.paging.freeMemoryPage := by rw [allocPage_eq h.aligned hroom]
    refine ⟨_, ⟨h1.aligned, h1.low, h1.frame, fun d hd => ?_, fun d hd j hj hp => ?_⟩, hpool'⟩
    · rcases List.mem_append.mp hd with hd | hd
      · exact h1.directory d hd
      · rw [List.mem_singleton.mp hd, hnew]
        exact Function.update_self _ _ _
    · rcases List.mem_append.mp hd with hd | hd
      · exact h1.table d hd j hj hp
      · -- the new directory is empty
        rw [List.mem_singleton.mp hd, hnew, allocPage_eq h.aligned hroom] at hp
        rw [entry_allocPage_new _ hj] at hp
        cases hp
  | newPage =>
    cases hc
    exact ⟨_, h.alloc hroom none, hpool'⟩
  | map i linear physical userLevel =>
    obtain ⟨d, hd, hc⟩ := Option.bind_eq_some_iff.mp hc
    obtain ⟨pg, hpg, rfl⟩ := Option.map_eq_some_iff.mp hc
    obtain ⟨hla, hpa, -⟩ := addMemoryMapping_cases hpg
    obtain ⟨pg', role', hpg', h', -⟩ := addMemoryMapping_walk h hroom (List.mem_of_getElem? hd) linear.toNat_lt
      hla physical.toNat_lt hpa userLevel
    obtain rfl := Option.some.inj (hpg'.symm.trans hpg)
    exact ⟨role', h', hpool'⟩
  | copy i j start =>
    obtain ⟨d, hd, hc⟩ := Option.bind_eq_some_iff.mp hc
    obtain ⟨d', hd', rfl⟩ := Option.map_eq_some_iff.mp hc
    have hlt := dirIndex_lt start.toNat_lt
    exact ⟨role, h.setEntry (List.mem_of_getElem? hd) hlt _ (h.table d' (List.mem_of_getElem? hd') _ hlt), hpool'⟩
  | store x byte =>
    by_cases hx : ∃ d ∈ s.directories, d ≤ x ∧ x < d + pageSize
    · simp only [Spaces.treeCall, if_pos hx] at hc
      cases hc
    · simp only [Spaces.treeCall, if_neg hx] at hc
      cases hc
      refine ⟨role, h.congr rfl fun d hd j hj => entry_congr (fun y h1 h2 => ?_) hj, hpool'⟩
      have hne : y ≠ x := by
        rintro rfl
        exact hx ⟨d, hd, h1, h2⟩
      exact if_neg hne

theorem trees_run {mem : Mem} {cs : List TreeCall} {s : Spaces}
    (hr : Path Spaces.TreeStep (Spaces.boot mem) cs s) : ∃ role, Trees role s ∧ s.InPool :=
  hr.inv (fun _ _ _ h hs => trees_step h hs) ⟨_, trees_boot mem, Nat.le_add_right _ _⟩

/-! ## the handler -/

/-- the low bits of the masked address -/
theorem mask_mod (a : UInt32) : (a &&& ~~~0x111).toNat % 4096 = (a &&& 0xeee).toNat := by
  rw [← and_fff]
  show ((a &&& ~~~0x111) &&& 0xfff).toNat = _
  rw [UInt32.and_assoc]
  rfl

theorem mask_eq_zero (a : UInt32) : (a &&& ~~~0x111).toNat % 4096 = 0 ↔ a &&& 0xeee = 0 := by
  rw [mask_mod]
  exact UInt32.toNat_inj (b := 0)

/-- the mask leaves the page -/
theorem mask_page (a : UInt32) : (a &&& ~~~0x111).toNat / 4096 = a.toNat / 4096 := by
  have hmask : (~~~0x111 : UInt32).toNat >>> 12 = 2^20 - 1 := rfl
  have hlt := a.toNat_lt
  have e : ∀ n : Nat, n / 4096 = n >>> 12 := fun n => (Nat.shiftRight_eq_div_pow n 12).symm
  rw [e, e, UInt32.toNat_and, Nat.shiftRight_and_distrib, hmask, Nat.and_two_pow_sub_one_eq_mod]
  refine Nat.mod_eq_of_lt ?_
  rw [← e]
  omega

namespace Kernel

/-- the page of the address is mapped to itself, and every other page as before -/
structure FaultServed (s t : Kernel) (address : UInt32) : Prop where
  page : ∀ x : UInt32, x.toNat / 4096 = address.toNat / 4096 → t.kernelWalk x = some x.toNat
  apart : ∀ x : UInt32, x.toNat / 4096 ≠ address.toNat / 4096 → t.kernelWalk x = s.kernelWalk x

theorem interruptHandler_pageFault {s : Kernel} {tf : TrapFrame} (h : tf.conditionCode = 14) (data : UInt8)
    (cr2 : UInt32) : interruptHandler s tf data cr2 = (pageFault s cr2).map fun t => (t, tf) := by
  have e : tf.conditionCode.toNat = 14 := by
    rw [h]
    rfl
  unfold interruptHandler
  simp only [e]
  rw [if_neg (by decide), if_pos trivial]
  cases pageFault s cr2 <;> rfl

/-- the halt on all addresses that the mask does not align -/
theorem pageFault_error {s : Kernel} {a : UInt32} (h : a &&& 0xeee ≠ 0) : pageFault s a = .error .notAligned := by
  have hmod : ¬ (a &&& ~~~0x111).toNat % 4096 = 0 := fun e => h ((mask_eq_zero a).mp e)
  have hnone : ∀ d, addMemoryMapping s.paging (a &&& ~~~0x111).toNat (a &&& ~~~0x111).toNat d false = none := by
    intro d
    rw [← and_fff] at hmod
    exact if_pos (.inl hmod)
  rw [pageFault]
  simp only [hnone]

/-- **The page fault branch returns, with the page of the address mapped to itself and all other pages as
before, if and only if the bits `0xeee` of the address are clear.** -/
theorem fault_served_iff (mem : Mem) (cs : List TreeCall) (s : Spaces)
    (hr : Path Spaces.TreeStep (Spaces.boot mem) cs s) (k : Kernel) (hk : k.paging = s.paging)
    (hd : k.kernelPagingDirectory ∈ s.directories) (tf : TrapFrame) (h14 : tf.conditionCode = 14) (data : UInt8)
    (a : UInt32) :
    (∃ t, interruptHandler k tf data a = .ok (t, tf) ∧ FaultServed k t a) ↔ a &&& 0xeee = 0 := by
  obtain ⟨role, h, hpool⟩ := trees_run hr
  rw [interruptHandler_pageFault h14]
  constructor
  · rintro ⟨t, ht, -⟩
    by_contra hne
    rw [pageFault_error hne] at ht
    cases ht
  · intro hz
    have halign := (mask_eq_zero a).mpr hz
    have hlt := (a &&& ~~~0x111).toNat_lt
    obtain ⟨paging, -, hpg, -, hwalk⟩ := addMemoryMapping_walk h hpool.room hd hlt halign hlt halign false
    have hfault : pageFault k a = .ok { k with paging := paging } := by
      rw [pageFault]
      simp only [hk, hpg]
    refine ⟨{ k with paging := paging }, by rw [hfault]; rfl, fun x hx => ?_, fun x hx => ?_⟩
    · have h1 := hwalk x.toNat x.toNat_lt
      rw [mask_page, if_pos hx] at h1
      rw [kernelWalk]
      have h2 := mask_page a
      rw [h1]
      refine congrArg some ?_
      omega
    · have h1 := hwalk x.toNat x.toNat_lt
      rw [mask_page, if_neg hx, ← hk] at h1
      exact h1

/-- the kernel with one empty directory, which is its own -/
def oneDirectory : Kernel :=
  Kernel.boot ⟨(allocPage ⟨fun _ => 0, freeMemoryPageStart⟩).2, freeMemoryPageStart, 0, 0, Regs.zero, by decide⟩

theorem oneDirectory_path : ∃ s, Path Spaces.TreeStep (Spaces.boot fun _ => 0) [.newDirectory] s ∧
    oneDirectory.paging = s.paging ∧ oneDirectory.kernelPagingDirectory ∈ s.directories :=
  ⟨_, ⟨_, ⟨rfl, by unfold Spaces.InPool; decide +kernel⟩, rfl⟩, rfl, List.mem_cons_self⟩

/-- the frame of a page fault from the kernel -/
def faultFrame : TrapFrame := (Trap.mk Regs.zero 0 0 (0, 0) 0 0).frame 14

theorem fault_served_base : ∃ t, interruptHandler oneDirectory faultFrame 0 0x400000 = .ok (t, faultFrame) ∧
    FaultServed oneDirectory t 0x400000 := by
  obtain ⟨s, hr, hk, hd⟩ := oneDirectory_path
  exact (fault_served_iff _ _ s hr oneDirectory hk hd faultFrame rfl 0 0x400000).mpr (by decide)

/-- the ninth byte of that page -/
theorem fault_inside_page_halts : ¬ ∀ (mem : Mem) (cs : List TreeCall) (s : Spaces),
    Path Spaces.TreeStep (Spaces.boot mem) cs s → ∀ k : Kernel, k.paging = s.paging →
    k.kernelPagingDirectory ∈ s.directories → ∀ tf : TrapFrame, tf.conditionCode = 14 → ∀ (data : UInt8)
    (a : UInt32), ∃ t, interruptHandler k tf data a = .ok (t, tf) ∧ FaultServed k t a := by
  intro hall
  obtain ⟨s, hr, hk, hd⟩ := oneDirectory_path
  obtain ⟨t, ht, -⟩ := hall _ _ s hr oneDirectory hk hd faultFrame rfl 0 0x400008
  have hne : (0x400008 : UInt32) &&& 0xeee ≠ 0 := by decide
  rw [interruptHandler_pageFault (rfl : faultFrame.conditionCode = 14), pageFault_error hne] at ht
  cases ht

end Kernel

end StarOS
