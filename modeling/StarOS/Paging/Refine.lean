import StarOS.Paging.Table
import StarOS.Lib.Run
import Mathlib.Data.List.Nodup
import Mathlib.Data.List.Induction

/-!
# The two-level tables refine a flat map

`Spaces` is the paging state with the directories that were allocated so far; a call allocates a
directory (`newDirectory`) or maps a page in one of them (`map i linear physical level`).
`flat cs i a` is the abstract translation: the calls `cs` are searched backwards for a mapping of
the page of `a` in directory `i`.

`Inv s F` says how the state represents the flat map `F`: directories and tables are pages the pool
has handed out, no two directory slots share a table, no table is a directory, and the walk gives
`F`.  `inv_newDirectory`, `inv_ensureTable` and `inv_setEntry` are the three edits, `inv_step` the
step and `paging_refines_flat` the run.
-/

namespace StarOS
open Lib

structure Spaces where
  paging : Paging
  directories : List Nat

/-- a call on the paging code; addresses are 32-bit words -/
inductive PagingCall where
  | newDirectory
  | map (i : Nat) (linear physical : UInt32) (userLevel : Bool)

namespace Spaces

def boot (mem : Mem) : Spaces := ⟨⟨mem, freeMemoryPageStart⟩, []⟩

def call (s : Spaces) : PagingCall → Option Spaces
  | .newDirectory => some ⟨(allocPage s.paging).2, s.directories ++ [(allocPage s.paging).1]⟩
  | .map i linear physical userLevel => s.directories[i]?.bind fun d =>
      (addMemoryMapping s.paging linear.toNat physical.toNat d userLevel).map fun pg =>
        { s with paging := pg }

/-- the pool of pages is not used up -/
def InPool (s : Spaces) : Prop :=
  s.paging.freeMemoryPage ≤ freeMemoryPageStart + freeMemoryPageLength

def Step (s : Spaces) (c : PagingCall) (t : Spaces) : Prop := s.call c = some t ∧ t.InPool

end Spaces

/-- what one call says about directory `i` at address `a` -/
def PagingCall.hit (i a : Nat) : PagingCall → Option Nat
  | .newDirectory => none
  | .map j linear physical _ =>
    if j = i ∧ linear.toNat / 4096 = a / 4096 then some (physical.toNat + a % 4096) else none

/-- the flat map of a sequence of calls: the last call that says something -/
def flat (cs : List PagingCall) (i a : Nat) : Option Nat := cs.reverse.findSome? (PagingCall.hit i a)

theorem flat_snoc (cs : List PagingCall) (c : PagingCall) (i a : Nat) :
    flat (cs ++ [c]) i a = ((c.hit i a).or (flat cs i a)) := by
  unfold flat
  rw [List.reverse_append, List.reverse_singleton, List.singleton_append, List.findSome?_cons]
  cases c.hit i a <;> rfl

/-! ## pages of the pool -/

/-- a page the pool has handed out -/
def Paging.Frame (s : Paging) (t : Nat) : Prop :=
  t % 4096 = 0 ∧ freeMemoryPageStart ≤ t ∧ t + 4096 ≤ s.freeMemoryPage

theorem entry_setEntry_frame {s : Paging} {t t' i i' : Nat} (e : PTE) (ht : t % 4096 = 0)
    (ht' : t' % 4096 = 0) (hne : t ≠ t') (hi : i < 1024) (hi' : i' < 1024) :
    (s.setEntry t' i' e).entry t i = s.entry t i :=
  entry_setEntry_apart s e (by omega)

/-- the state after `alloc_page`, when the pointer is on a page boundary and does not wrap -/
theorem allocPage_eq {s : Paging} (ha : s.freeMemoryPage % 4096 = 0)
    (hlt : s.freeMemoryPage + 4096 < 2^32) :
    allocPage s = (s.freeMemoryPage, ⟨zeromem s.mem s.freeMemoryPage 4096, s.freeMemoryPage + 4096⟩) := by
  have h1 : alignPage s.freeMemoryPage = s.freeMemoryPage := if_pos ha
  have h2 : wrap32 s.freeMemoryPage = s.freeMemoryPage := wrap32_of_lt (by omega)
  have h3 : wrap32 (s.freeMemoryPage + 4096) = s.freeMemoryPage + 4096 := wrap32_of_lt hlt
  simp only [allocPage, h1, h2, pageSize_eq, h3]

/-- `alloc_page` leaves the pages handed out before alone -/
theorem entry_allocPage_old {s : Paging} {t i : Nat} (n : Nat) (ht : s.Frame t) (hi : i < 1024) :
    Paging.entry ⟨zeromem s.mem s.freeMemoryPage 4096, n⟩ t i = s.entry t i := by
  apply entry_congr _ hi
  intro x h1 h2
  show zeromem s.mem s.freeMemoryPage 4096 x = s.mem x
  have := ht.2.2
  rw [zeromem_apply, if_neg (by omega)]

/-- the page it hands out is empty -/
theorem entry_allocPage_new {s : Paging} {i : Nat} (n : Nat) (hi : i < 1024) :
    (Paging.entry ⟨zeromem s.mem s.freeMemoryPage 4096, n⟩ s.freeMemoryPage i).p = false := by
  have h0 : read32 (zeromem s.mem s.freeMemoryPage 4096) (s.freeMemoryPage + 4 * i) = 0 := by
    apply read32_zero
    intro x h1 h2
    rw [zeromem_apply, if_pos (by omega)]
  show (PTE.decode (read32 _ _)).p = false
  rw [h0]
  rfl

/-! ## the walk -/

/-- the second half of the walk: entry `tableIndex a` of the table at `t` -/
def Paging.leaf (s : Paging) (t a : Nat) : Option Nat :=
  if (s.entry t (tableIndex a)).p then
    some ((s.entry t (tableIndex a)).address.val * 4096 + a % 4096)
  else none

theorem walk_absent {s : Paging} {a d : Nat} (h : (s.entry d (dirIndex a)).p = false) :
    checkAddressMapping s a d = none := by
  simp [checkAddressMapping, h]

theorem walk_present {s : Paging} {a d : Nat} (h : (s.entry d (dirIndex a)).p = true) :
    checkAddressMapping s a d = s.leaf (s.entry d (dirIndex a)).table a := by
  simp only [checkAddressMapping, h, Paging.leaf, Nat.shiftLeft_eq, and_fff]
  cases (s.entry (s.entry d (dirIndex a)).table (tableIndex a)).p <;> rfl

theorem walk_same {paging : Paging} {d d' x : Nat}
    (h : paging.entry d (dirIndex x) = paging.entry d' (dirIndex x)) :
    checkAddressMapping paging x d = checkAddressMapping paging x d' := by
  rw [checkAddressMapping, checkAddressMapping, h]

theorem leaf_congr {s s' : Paging} {t a : Nat}
    (h : s'.entry t (tableIndex a) = s.entry t (tableIndex a)) : s'.leaf t a = s.leaf t a := by
  simp only [Paging.leaf, h]

/-- a walk reads the entry of the directory and, if it is present, that of its table -/
theorem walk_congr {s s' : Paging} {d a : Nat} (hdir : s'.entry d (dirIndex a) = s.entry d (dirIndex a))
    (htable : (s.entry d (dirIndex a)).p = true → s'.entry (s.entry d (dirIndex a)).table (tableIndex a)
      = s.entry (s.entry d (dirIndex a)).table (tableIndex a)) :
    checkAddressMapping s' a d = checkAddressMapping s a d := by
  cases hp : (s.entry d (dirIndex a)).p with
  | false => rw [walk_absent hp, walk_absent (hdir.symm ▸ hp)]
  | true =>
    rw [walk_present hp, walk_present (hdir.symm ▸ hp), hdir]
    exact leaf_congr (htable hp)

theorem dirIndex_lt {a : Nat} (h : a < 2^32) : dirIndex a < 1024 := by
  rw [dirIndex_eq]
  omega

/-! ## the invariant -/

structure Inv (s : Spaces) (F : Nat → Nat → Option Nat) : Prop where
  aligned : s.paging.freeMemoryPage % 4096 = 0
  low : freeMemoryPageStart ≤ s.paging.freeMemoryPage
  pool : s.InPool
  dirs : ∀ d ∈ s.directories, s.paging.Frame d
  nodup : s.directories.Nodup
  tables : ∀ d ∈ s.directories, ∀ j < 1024, (s.paging.entry d j).p = true →
    s.paging.Frame (s.paging.entry d j).table ∧ (s.paging.entry d j).table ∉ s.directories
  inj : ∀ d ∈ s.directories, ∀ d' ∈ s.directories, ∀ j < 1024, ∀ j' < 1024,
    (s.paging.entry d j).p = true → (s.paging.entry d' j').p = true →
    (s.paging.entry d j).table = (s.paging.entry d' j').table → d = d' ∧ j = j'
  dom : ∀ i a, F i a ≠ none → i < s.directories.length
  walk : ∀ i d, s.directories[i]? = some d → ∀ a < 2^32, checkAddressMapping s.paging a d = F i a

theorem inv_boot (mem : Mem) : Inv (Spaces.boot mem) (flat []) where
  aligned := by
    show freeMemoryPageStart % 4096 = 0
    decide
  low := Nat.le_refl _
  pool := Nat.le_add_right _ _
  dirs := fun d hd => absurd hd (List.not_mem_nil)
  nodup := List.nodup_nil
  tables := fun d hd => absurd hd (List.not_mem_nil)
  inj := fun d hd => absurd hd (List.not_mem_nil)
  dom := fun i a h => absurd rfl h
  walk := fun i d h => absurd h (by simp [Spaces.boot])

theorem Inv.free_lt {s : Spaces} {F : Nat → Nat → Option Nat} (h : Inv s F) :
    s.paging.freeMemoryPage + 4096 < 2^32 := by
  have hp := h.pool
  simp only [Spaces.InPool, freeMemoryPageStart_eq, freeMemoryPageLength_eq] at hp
  omega

theorem frame_mono {s s' : Paging} {t : Nat} (h : s.Frame t)
    (hle : s.freeMemoryPage ≤ s'.freeMemoryPage) : s'.Frame t :=
  ⟨h.1, h.2.1, Nat.le_trans h.2.2 hle⟩

/-- the next page of the pool is no page handed out before -/
theorem Paging.Frame.fresh {s : Paging} {t : Nat} (ht : s.Frame t) : t ≠ s.freeMemoryPage := by
  have := ht.2.2
  omega

/-- the pool after one page more is handed out -/
theorem frame_next {s : Spaces} {F : Nat → Nat → Option Nat} (h : Inv s F) (m : Mem) :
    Paging.Frame ⟨m, s.paging.freeMemoryPage + 4096⟩ s.paging.freeMemoryPage :=
  ⟨h.aligned, h.low, Nat.le_refl _⟩

theorem inv_newDirectory {s t : Spaces} {F : Nat → Nat → Option Nat} (h : Inv s F)
    (hs : s.Step .newDirectory t) : Inv t F := by
  obtain ⟨hc, hpool⟩ := hs
  cases hc
  rw [allocPage_eq h.aligned h.free_lt] at hpool ⊢
  have hold : ∀ d ∈ s.directories, ∀ j < 1024, Paging.entry
      ⟨zeromem s.paging.mem s.paging.freeMemoryPage 4096, s.paging.freeMemoryPage + 4096⟩ d j
      = s.paging.entry d j := fun d hd j hj => entry_allocPage_old _ (h.dirs d hd) hj
  have hnew : ∀ j < 1024, (Paging.entry
      ⟨zeromem s.paging.mem s.paging.freeMemoryPage 4096, s.paging.freeMemoryPage + 4096⟩
      s.paging.freeMemoryPage j).p = false := fun j hj => entry_allocPage_new _ hj
  have hfresh : s.paging.freeMemoryPage ∉ s.directories := fun hd => (h.dirs _ hd).fresh rfl
  have hsplit : ∀ d, d ∈ s.directories ++ [s.paging.freeMemoryPage] →
      d ∈ s.directories ∨ d = s.paging.freeMemoryPage := fun d hd =>
    (List.mem_append.mp hd).imp_right List.mem_singleton.mp
  exact {
    aligned := by
      have := h.aligned
      show (s.paging.freeMemoryPage + 4096) % 4096 = 0
      omega
    low := Nat.le_trans h.low (Nat.le_add_right _ _)
    pool := hpool
    dirs := by
      intro d hd
      rcases hsplit d hd with hd | rfl
      · exact frame_mono (h.dirs d hd) (Nat.le_add_right _ _)
      · exact frame_next h _
    nodup := by
      refine List.nodup_append.mpr ⟨h.nodup, List.nodup_singleton _, ?_⟩
      intro d hd d' hd' e
      have e' : d = s.paging.freeMemoryPage := e.trans (List.mem_singleton.mp hd')
      exact hfresh (e' ▸ hd)
    tables := by
      intro d hd j hj hp
      rcases hsplit d hd with hd | rfl
      · rw [hold d hd j hj] at hp ⊢
        obtain ⟨h1, h2⟩ := h.tables d hd j hj hp
        refine ⟨frame_mono h1 (Nat.le_add_right _ _), fun hmem => ?_⟩
        exact (hsplit _ hmem).elim h2 h1.fresh
      · rw [hnew j hj] at hp
        cases hp
    inj := by
      intro d hd d' hd' j hj j' hj' hp hp' he
      rcases hsplit d hd with hd | rfl
      · rcases hsplit d' hd' with hd' | rfl
        · rw [hold d hd j hj] at hp he
          rw [hold d' hd' j' hj'] at hp' he
          exact h.inj d hd d' hd' j hj j' hj' hp hp' he
        · rw [hnew j' hj'] at hp'
          cases hp'
      · rw [hnew j hj] at hp
        cases hp
    dom := by
      intro i a hF
      have := h.dom i a hF
      simp only [List.length_append, List.length_singleton]
      omega
    walk := by
      intro i d hi a ha
      have hdi := dirIndex_lt ha
      rw [List.getElem?_append] at hi
      by_cases hlt : i < s.directories.length
      · rw [if_pos hlt] at hi
        have hd := List.mem_of_getElem? hi
        rw [← h.walk i d hi a ha]
        exact walk_congr (hold d hd _ hdi) fun hp =>
          entry_allocPage_old _ (h.tables d hd _ hdi hp).1 (tableIndex_lt a)
      · -- the new directory is empty
        rw [if_neg hlt] at hi
        have hd : d = s.paging.freeMemoryPage := List.mem_singleton.mp (List.mem_of_getElem? hi)
        subst hd
        rw [walk_absent (hnew _ hdi)]
        by_contra hne
        exact hlt (h.dom i a (fun e => hne e.symm)) }

/-! ## mapping a page -/

/-- the entry of a directory for a table of the pool -/
theorem present_table (userLevel : Bool) {t : Nat} (ht : t % 4096 = 0) (hlt : t < 2^32) :
    (PTE.decode (PTE.present userLevel t).encode).table = t := by
  rw [PTE.table_eq]
  exact PTE.present_address userLevel hlt ht

/-- entry `j` of the directory at `d` leads to an empty page that is new, and nothing else of the pool has
changed -/
structure TableAdded (s t : Paging) (d j : Nat) : Prop where
  free : t.freeMemoryPage = s.freeMemoryPage + 4096
  present : (t.entry d j).p = true
  table : (t.entry d j).table = s.freeMemoryPage
  empty : ∀ k < 1024, (t.entry s.freeMemoryPage k).p = false
  other : ∀ x, s.Frame x → ∀ k < 1024, ¬ (x = d ∧ k = j) → t.entry x k = s.entry x k

/-- what `ensure_table` does where the table is missing -/
theorem ensureTable_missing {s : Paging} (ha : s.freeMemoryPage % 4096 = 0) (hlt : s.freeMemoryPage + 4096 < 2^32)
    {d linear : Nat} (hd : s.Frame d) (hl : linear < 2^32) (userLevel : Bool)
    (hp : (s.entry d (dirIndex linear)).p = false) :
    TableAdded s (ensureTable s linear d userLevel) d (dirIndex linear) := by
  have hdl := dirIndex_lt hl
  let s1 : Paging := ⟨zeromem s.mem s.freeMemoryPage 4096, s.freeMemoryPage + 4096⟩
  have e : ensureTable s linear d userLevel
      = s1.setEntry d (dirIndex linear) (PTE.present userLevel s.freeMemoryPage) := by
    simp only [ensureTable, hp, allocPage_eq ha hlt]
    rfl
  rw [e]
  have hslot : (s1.setEntry d (dirIndex linear) (PTE.present userLevel s.freeMemoryPage)).entry d (dirIndex linear)
      = PTE.decode (PTE.present userLevel s.freeMemoryPage).encode := entry_setEntry _ _ _ _
  refine ⟨rfl, ?_, ?_, fun k hk => ?_, fun x hx k hk hne => ?_⟩
  · rw [hslot]
    exact PTE.present_p _ _
  · rw [hslot]
    exact present_table userLevel ha (by omega)
  · rw [entry_setEntry_frame _ ha hd.1 hd.fresh.symm hk hdl]
    exact entry_allocPage_new _ hk
  · have h1 : (s1.setEntry d (dirIndex linear) (PTE.present userLevel s.freeMemoryPage)).entry x k
        = s1.entry x k := by
      by_cases hxd : x = d
      · have hkj : k ≠ dirIndex linear := fun hk => hne ⟨hxd, hk⟩
        exact entry_setEntry_apart s1 _ (by omega)
      · exact entry_setEntry_frame _ hx.1 hd.1 hxd hk hdl
    rw [h1]
    exact entry_allocPage_old _ hx hk

/-- the new table changes no translation, where no directory is a table -/
theorem TableAdded.walk {s t : Paging} {d j : Nat} (h : TableAdded s t d j) (hp0 : (s.entry d j).p = false)
    {d' a : Nat} (hd' : s.Frame d') (ha : a < 2^32) (htable : (s.entry d' (dirIndex a)).p = true →
      s.Frame (s.entry d' (dirIndex a)).table ∧ (s.entry d' (dirIndex a)).table ≠ d) :
    checkAddressMapping t a d' = checkAddressMapping s a d' := by
  have hda := dirIndex_lt ha
  by_cases hc : d' = d ∧ dirIndex a = j
  · obtain ⟨rfl, rfl⟩ := hc
    rw [walk_absent hp0, walk_present h.present, h.table, Paging.leaf, h.empty _ (tableIndex_lt a)]
    rfl
  · refine walk_congr (h.other d' hd' _ hda hc) fun hp => ?_
    obtain ⟨hf, hne⟩ := htable hp
    exact h.other _ hf _ (tableIndex_lt a) fun hx => hne hx.1

theorem inv_tableAdded {s : Spaces} {F : Nat → Nat → Option Nat} (h : Inv s F) {d j : Nat} {t : Paging}
    (hd : d ∈ s.directories) (hpool : Spaces.InPool { s with paging := t }) (ht : TableAdded s.paging t d j)
    (hp0 : (s.paging.entry d j).p = false) : Inv { s with paging := t } F := by
  have hfree : s.paging.freeMemoryPage ≤ t.freeMemoryPage := ht.free ▸ Nat.le_add_right _ _
  have hother : ∀ d' ∈ s.directories, ∀ k < 1024, ¬ (d' = d ∧ k = j) → t.entry d' k = s.paging.entry d' k :=
    fun d' hd' => ht.other d' (h.dirs d' hd')
  refine ⟨?_, Nat.le_trans h.low hfree, hpool, fun d' hd' => frame_mono (h.dirs d' hd') hfree, h.nodup, ?_, ?_, h.dom,
    ?_⟩
  · have := h.aligned
    show t.freeMemoryPage % 4096 = 0
    rw [ht.free]
    omega
  · intro d' hd' k hk hp
    change (t.entry d' k).p = true at hp
    show t.Frame (t.entry d' k).table ∧ (t.entry d' k).table ∉ s.directories
    by_cases hc : d' = d ∧ k = j
    · obtain ⟨rfl, rfl⟩ := hc
      rw [ht.table]
      exact ⟨⟨h.aligned, h.low, Nat.le_of_eq ht.free.symm⟩, fun hd => (h.dirs _ hd).fresh rfl⟩
    · rw [hother d' hd' k hk hc] at hp ⊢
      obtain ⟨h1, h2⟩ := h.tables d' hd' k hk hp
      exact ⟨frame_mono h1 hfree, h2⟩
  · intro d1 hd1 d2 hd2 j1 hj1 j2 hj2 hp1 hp2 he
    change (t.entry d1 j1).p = true at hp1
    change (t.entry d2 j2).p = true at hp2
    change (t.entry d1 j1).table = (t.entry d2 j2).table at he
    by_cases hc1 : d1 = d ∧ j1 = j
    · by_cases hc2 : d2 = d ∧ j2 = j
      · exact ⟨hc1.1.trans hc2.1.symm, hc1.2.trans hc2.2.symm⟩
      · rw [hother d2 hd2 j2 hj2 hc2] at hp2 he
        rw [hc1.1, hc1.2, ht.table] at he
        exact absurd he.symm (h.tables d2 hd2 j2 hj2 hp2).1.fresh
    · rw [hother d1 hd1 j1 hj1 hc1] at hp1 he
      by_cases hc2 : d2 = d ∧ j2 = j
      · rw [hc2.1, hc2.2, ht.table] at he
        exact absurd he (h.tables d1 hd1 j1 hj1 hp1).1.fresh
      · rw [hother d2 hd2 j2 hj2 hc2] at hp2 he
        exact h.inj d1 hd1 d2 hd2 j1 hj1 j2 hj2 hp1 hp2 he
  · intro i d' hi a ha
    have hd' := List.mem_of_getElem? hi
    rw [← h.walk i d' hi a ha]
    refine ht.walk hp0 (h.dirs d' hd') ha fun hp => ?_
    obtain ⟨h1, h2⟩ := h.tables d' hd' _ (dirIndex_lt ha) hp
    exact ⟨h1, fun e => h2 (e ▸ hd)⟩

/-- a missing page table is allocated without changing any translation -/
theorem inv_ensureTable {s : Spaces} {F : Nat → Nat → Option Nat} (h : Inv s F) {d linear : Nat}
    (hd : d ∈ s.directories) (hl : linear < 2^32) (userLevel : Bool)
    (hpool : Spaces.InPool { s with paging := ensureTable s.paging linear d userLevel }) :
    Inv { s with paging := ensureTable s.paging linear d userLevel } F ∧
      ((ensureTable s.paging linear d userLevel).entry d (dirIndex linear)).p = true := by
  cases hp0 : (s.paging.entry d (dirIndex linear)).p with
  | true =>
    have e : ensureTable s.paging linear d userLevel = s.paging := by simp [ensureTable, hp0]
    rw [e]
    exact ⟨h, hp0⟩
  | false =>
    have ht := ensureTable_missing h.aligned h.free_lt (h.dirs d hd) hl userLevel hp0
    exact ⟨inv_tableAdded h hd hpool ht hp0, ht.present⟩

/-- an entry of the table at `t` is stored: the walks through this entry lead to the page -/
theorem walk_setLeaf {s : Paging} {t k physical : Nat} (ht : t % 4096 = 0) (hk : k < 1024) (hp : physical < 2^32)
    (hpa : physical % 4096 = 0) (userLevel : Bool) {d a : Nat} (hd : d % 4096 = 0) (hne : d ≠ t) (ha : a < 2^32) :
    checkAddressMapping (s.setEntry t k (PTE.present userLevel physical)) a d
      = if (s.entry d (dirIndex a)).p = true ∧ (s.entry d (dirIndex a)).table = t ∧ tableIndex a = k
        then some (physical + a % 4096) else checkAddressMapping s a d := by
  have hdir : (s.setEntry t k (PTE.present userLevel physical)).entry d (dirIndex a) = s.entry d (dirIndex a) :=
    entry_setEntry_frame _ hd ht hne (dirIndex_lt ha) hk
  cases hpres : (s.entry d (dirIndex a)).p with
  | false => rw [walk_absent (by rw [hdir]; exact hpres), if_neg (by simp), walk_absent hpres]
  | true =>
    rw [walk_present (by rw [hdir]; exact hpres), hdir, walk_present hpres]
    by_cases hc : (s.entry d (dirIndex a)).table = t ∧ tableIndex a = k
    · rw [if_pos ⟨rfl, hc⟩, hc.1, Paging.leaf, hc.2, entry_setEntry, PTE.present_p, if_pos rfl,
        PTE.present_address userLevel hp hpa]
    · rw [if_neg fun h => hc h.2]
      refine leaf_congr ?_
      by_cases htt : (s.entry d (dirIndex a)).table = t
      · -- another entry of the table
        have hti : tableIndex a ≠ k := fun e => hc ⟨htt, e⟩
        rw [htt]
        exact entry_setEntry_apart _ _ (by omega)
      · have hmod : (s.entry d (dirIndex a)).table % 4096 = 0 := by
          rw [PTE.table_eq]
          exact Nat.mul_mod_left _ _
        exact entry_setEntry_frame _ hmod ht htt (tableIndex_lt a) hk

/-- writing the entry of a page changes the translation of this page only -/
theorem inv_setEntry {s : Spaces} {F : Nat → Nat → Option Nat} (h : Inv s F) {i d : Nat}
    (hi : s.directories[i]? = some d) {linear physical : Nat} (hl : linear < 2^32)
    (hp : physical < 2^32) (hpa : physical % 4096 = 0) (userLevel : Bool)
    (hpres : (s.paging.entry d (dirIndex linear)).p = true) :
    Inv ⟨s.paging.setEntry (s.paging.entry d (dirIndex linear)).table (tableIndex linear)
        (PTE.present userLevel physical), s.directories⟩
      (fun j a => if j = i ∧ linear / 4096 = a / 4096 then some (physical + a % 4096) else F j a) := by
  have hdl := dirIndex_lt hl
  have hd := List.mem_of_getElem? hi
  obtain ⟨htf, htd⟩ := h.tables d hd _ hdl hpres
  let t := (s.paging.entry d (dirIndex linear)).table
  let s2 := s.paging.setEntry t (tableIndex linear) (PTE.present userLevel physical)
  -- directories are not touched
  have hdir : ∀ d' ∈ s.directories, ∀ j < 1024, s2.entry d' j = s.paging.entry d' j :=
    fun d' hd' j hj => entry_setEntry_frame _ (h.dirs d' hd').1 htf.1 (fun e => htd (show t ∈ s.directories from e ▸ hd'))
      hj (tableIndex_lt linear)
  refine ⟨h.aligned, h.low, h.pool, h.dirs, h.nodup, ?_, ?_, ?_, ?_⟩
  · intro d' hd' j hj hp'
    change (s2.entry d' j).p = true at hp'
    show s2.Frame (s2.entry d' j).table ∧ (s2.entry d' j).table ∉ s.directories
    rw [hdir d' hd' j hj] at hp' ⊢
    exact h.tables d' hd' j hj hp'
  · intro d1 hd1 d2 hd2 j1 hj1 j2 hj2 hp1 hp2 he
    change (s2.entry d1 j1).p = true at hp1
    change (s2.entry d2 j2).p = true at hp2
    change (s2.entry d1 j1).table = (s2.entry d2 j2).table at he
    rw [hdir d1 hd1 j1 hj1] at hp1 he
    rw [hdir d2 hd2 j2 hj2] at hp2 he
    exact h.inj d1 hd1 d2 hd2 j1 hj1 j2 hj2 hp1 hp2 he
  · intro j a hne
    by_cases hc : j = i ∧ linear / 4096 = a / 4096
    · rw [hc.1]
      exact (List.getElem?_eq_some_iff.mp hi).1
    · simp only [if_neg hc] at hne
      exact h.dom j a hne
  · intro j d' hj a ha
    have hd' := List.mem_of_getElem? hj
    have hsame : d' = d ↔ j = i := by
      constructor
      · rintro rfl
        exact (List.getElem?_inj (List.getElem?_eq_some_iff.mp hj).1 h.nodup).mp (hj.trans hi.symm)
      · rintro rfl
        exact Option.some.inj (hj.symm.trans hi)
    have hidx := index_eq_iff linear a
    show checkAddressMapping s2 a d' = _
    rw [walk_setLeaf htf.1 (tableIndex_lt linear) hp hpa userLevel (h.dirs d' hd').1
      (fun e => htd (e ▸ hd')) ha]
    refine if_congr ⟨?_, ?_⟩ rfl (h.walk j d' hj a ha)
    · rintro ⟨hpa', htt, hti⟩
      -- the same table is reached from the same entry only
      obtain ⟨hdd, hdx⟩ := h.inj d' hd' d hd _ (dirIndex_lt ha) _ hdl hpa' hpres htt
      exact ⟨hsame.mp hdd, hidx.mp ⟨hdx.symm, hti.symm⟩⟩
    · rintro ⟨hji, hpage⟩
      obtain ⟨h1, h2⟩ := hidx.mpr hpage
      rw [hsame.mpr hji, ← h1]
      exact ⟨hpres, rfl, h2.symm⟩

/-! ## runs -/

theorem addMemoryMapping_cases {s s' : Paging} {linear physical d : Nat} {userLevel : Bool}
    (h : addMemoryMapping s linear physical d userLevel = some s') :
    linear % 4096 = 0 ∧ physical % 4096 = 0 ∧
      s' = (ensureTable s linear d userLevel).setEntry
        ((ensureTable s linear d userLevel).entry d (dirIndex linear)).table (tableIndex linear)
        (PTE.present userLevel physical) := by
  have h1 := and_fff linear
  have h2 := and_fff physical
  unfold addMemoryMapping at h
  by_cases hc : linear &&& 0b111111111111 ≠ 0 ∨ physical &&& 0b111111111111 ≠ 0
  · rw [if_pos hc] at h
    cases h
  · rw [if_neg hc] at h
    obtain ⟨hl, hp⟩ := not_or.mp hc
    exact ⟨by omega, by omega, (Option.some.inj h).symm⟩

theorem inv_step {s t : Spaces} {cs : List PagingCall} {c : PagingCall} (h : Inv s (flat cs))
    (hs : s.Step c t) : Inv t (flat (cs ++ [c])) := by
  cases c with
  | newDirectory =>
    have e : flat (cs ++ [.newDirectory]) = flat cs := by
      funext i a
      rw [flat_snoc]
      rfl
    rw [e]
    exact inv_newDirectory h hs
  | map i linear physical userLevel =>
    obtain ⟨hc, hpool⟩ := hs
    obtain ⟨d, hd, hc⟩ := Option.bind_eq_some_iff.mp hc
    obtain ⟨pg, hpg, rfl⟩ := Option.map_eq_some_iff.mp hc
    obtain ⟨-, hpa, rfl⟩ := addMemoryMapping_cases hpg
    obtain ⟨h1, hp⟩ := inv_ensureTable h (List.mem_of_getElem? hd) linear.toNat_lt userLevel hpool
    have h2 := inv_setEntry h1 hd linear.toNat_lt physical.toNat_lt hpa userLevel hp
    have e : flat (cs ++ [.map i linear physical userLevel]) = fun j a =>
        if j = i ∧ linear.toNat / 4096 = a / 4096 then some (physical.toNat + a % 4096)
        else flat cs j a := by
      funext j a
      rw [flat_snoc]
      simp only [PagingCall.hit, eq_comm (a := i)]
      split <;> rfl
    rw [e]
    exact h2

theorem inv_run {mem : Mem} {cs : List PagingCall} {s : Spaces}
    (hr : Path Spaces.Step (Spaces.boot mem) cs s) : Inv s (flat cs) := by
  induction cs using List.reverseRecOn generalizing s with
  | nil =>
    rw [← path_nil.mp hr]
    exact inv_boot mem
  | append_singleton cs c ih =>
    obtain ⟨m, hm, hst⟩ := path_snoc.mp hr
    exact inv_step (ih hm) hst

/-- **The tables refine the flat map of the calls**: the walk of directory `i` at any 32-bit address
gives what the last call on its page says; a mapping of aligned addresses never halts; and it
changes no translation of another page or of another directory. -/
theorem paging_refines_flat (mem : Mem) (cs : List PagingCall) (s : Spaces)
    (hr : Path Spaces.Step (Spaces.boot mem) cs s) :
    (∀ i d, s.directories[i]? = some d → ∀ a < 2^32,
      checkAddressMapping s.paging a d = flat cs i a) ∧
    (∀ i < s.directories.length, ∀ linear physical : UInt32, ∀ userLevel,
      linear.toNat % 4096 = 0 → physical.toNat % 4096 = 0 →
        ∃ t, s.call (.map i linear physical userLevel) = some t) ∧
    (∀ i linear physical userLevel t, s.Step (.map i linear physical userLevel) t →
      ∀ j d a, s.directories[j]? = some d → a < 2^32 → j ≠ i ∨ a / 4096 ≠ linear.toNat / 4096 →
        checkAddressMapping t.paging a d = checkAddressMapping s.paging a d) := by
  have hinv := inv_run hr
  refine ⟨hinv.walk, ?_, ?_⟩
  · intro i hi linear physical userLevel hl hp
    have h1 : linear.toNat &&& 0b111111111111 = 0 := by rw [and_fff]; exact hl
    have h2 : physical.toNat &&& 0b111111111111 = 0 := by rw [and_fff]; exact hp
    have hm : ∀ d, ∃ pg, addMemoryMapping s.paging linear.toNat physical.toNat d userLevel = some pg :=
      fun d => ⟨_, if_neg (by omega)⟩
    obtain ⟨pg, hpg⟩ := hm s.directories[i]
    refine ⟨{ s with paging := pg }, ?_⟩
    show s.directories[i]?.bind _ = _
    rw [List.getElem?_eq_getElem hi, Option.bind_some, hpg]
    rfl
  · intro i linear physical userLevel t hst j d a hd ha hne
    have hdt : t.directories[j]? = some d := by
      obtain ⟨d', -, hc⟩ := Option.bind_eq_some_iff.mp hst.1
      obtain ⟨pg, -, rfl⟩ := Option.map_eq_some_iff.mp hc
      exact hd
    rw [(inv_step hinv hst).walk j d hdt a ha, hinv.walk j d hd a ha, flat_snoc]
    have hh : (PagingCall.map i linear physical userLevel).hit j a = none := by
      apply if_neg
      rintro ⟨e1, e2⟩
      omega
    rw [hh]
    rfl

/-- a directory with one page mapped over another mapping of the same page -/
theorem paging_refines_flat_remap : ∃ s, Path Spaces.Step (Spaces.boot fun _ => 0)
    [.newDirectory, .map 0 0x400000 0x7000 true, .map 0 0x400000 0x9000 true] s ∧
    checkAddressMapping s.paging 0x400abc freeMemoryPageStart = some 0x9abc := by
  have hr : ∃ s, Path Spaces.Step (Spaces.boot fun _ => 0)
      [.newDirectory, .map 0 0x400000 0x7000 true, .map 0 0x400000 0x9000 true] s ∧
      s.directories[0]? = some freeMemoryPageStart :=
    ⟨_, ⟨_, ⟨rfl, by unfold Spaces.InPool; decide +kernel⟩, _, ⟨rfl, by unfold Spaces.InPool; decide +kernel⟩, _,
      ⟨rfl, by unfold Spaces.InPool; decide +kernel⟩, rfl⟩, rfl⟩
  obtain ⟨s, hr, hd⟩ := hr
  refine ⟨s, hr, ?_⟩
  rw [(paging_refines_flat _ _ s hr).1 0 _ hd 0x400abc (by decide)]
  rfl

end StarOS
