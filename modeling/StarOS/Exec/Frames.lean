import StarOS.Exec.Serve
import Mathlib.Data.Finset.Card

/-!
# The pages of the pool and their uses

What the paging code is for, without memory: the pool is a sequence of frames, each taken for one
`Use`, and every directory has a map from pages to physical addresses.  `Frames.serve`,
`Frames.load` and `Frames.run` are the same programs as those of `Loader` on these states.

* `frameAt i`          the address of frame `i`;
* `Frames.table a d j` the frame that is the table of directory `d` for slot `j`;
* `Frames.Ok`          what holds of these states: a table belongs to a directory, what is mapped
                       has a table, a process maps a page of `Kernel_maps` to itself and any other
                       page to a frame taken for one of its own;
* `Spends n a r`       the result `r` took `n` frames more, or halted with all of them taken.
-/

namespace StarOS
open Lib

/-- what a frame is used for; directories are named by their addresses -/
inductive Use where
  | directory
  | table (directory slot : Nat)
  | page (directory : Nat)
deriving DecidableEq

def frameAt (i : Nat) : Nat := freeMemoryPageStart + pageSize * i

theorem frameAt_eq (i : Nat) : frameAt i = 0x78405000 + 4096 * i := rfl

theorem frameAt_inj {i j : Nat} (h : frameAt i = frameAt j) : i = j := by
  rw [frameAt_eq, frameAt_eq] at h
  omega

/-- the frames below the first 4MB that the kernel's directory has no page table for -/
def frameLimit : Nat := 26619

structure Frames where
  uses : List Use
  /-- directory, page and the physical address it is mapped to -/
  map : Nat → Nat → Option Nat
  isPagingEnabled : Bool
  directories : List Nat

abbrev FrameM := EStateM Fatal Frames

namespace Frames

/-- the directory of the kernel is the first frame -/
def kernelDirectory : Nat := frameAt 0

def table (a : Frames) (d j : Nat) : Option Nat :=
  (a.uses.findIdx? fun u => decide (u = .table d j)).map frameAt

def push (a : Frames) (u : Use) : Frames := { a with uses := a.uses ++ [u] }

/-- page `p` of directory `d` is mapped to `physical` -/
def point (a : Frames) (d p physical : Nat) : Frames :=
  { a with map := fun d' p' => if d' = d ∧ p' = p then some physical else a.map d' p' }

def touch (i : Nat) : FrameM PUnit := fun a =>
  if !a.isPagingEnabled || (a.map kernelDirectory (frameAt i / 4096)).isSome then .ok ⟨⟩ a
  else if (a.table kernelDirectory (frameAt i / 4194304)).isSome then
    .ok ⟨⟩ (a.point kernelDirectory (frameAt i / 4096) (frameAt i))
  else .error .kernelStackOverflow a

def take (u : Use) : FrameM Nat := fun a => .ok (frameAt a.uses.length) (a.push u)

def alloc (u : Use) : FrameM Nat := do
  touch (← get).uses.length
  take u

def ensureTable (d j : Nat) : FrameM PUnit := do
  if ((← get).table d j).isSome then pure ⟨⟩
  else
    let _ ← alloc (.table d j)
    pure ⟨⟩

def setPage (d p physical : Nat) : FrameM PUnit := fun a => .ok ⟨⟩ (a.point d p physical)

def mapPage (d p physical : Nat) : FrameM PUnit := do
  ensureTable d (p / 1024)
  setPage d p physical

/-- a new page of the process, mapped at page `p` -/
def mapNewPage (d p : Nat) : FrameM PUnit := do
  let page ← alloc (.page d)
  mapPage d p page

def serve (d : Nat) : Request → FrameM PUnit
  | .firstPage vpage _ _ => mapNewPage d (vpage / 4096)
  | .nextPage vaddr _ => mapNewPage d (vaddr / 4096)
  | .stackPage vaddr => mapNewPage d (vaddr / 4096)
  | .kernelPage vaddr physical => mapPage d (vaddr / 4096) physical

def loaded (d : Nat) : FrameM PUnit := fun a =>
  .ok ⟨⟩ { a with directories := a.directories ++ [d] }

def load (f : File) : FrameM PUnit := do
  let d ← alloc .directory
  (plan f).1.forM (serve d)
  match (plan f).2 with
  | none => loaded d
  | some e => throw e

def enableKernelPaging : FrameM PUnit := fun a => .ok ⟨⟩ { a with isPagingEnabled := true }

def ksetupKernelPaging : FrameM PUnit := do
  let d ← alloc .directory
  kernelRequests.forM (serve d)
  serve d (.kernelPage Loader.notUsedMemoryStart (Loader.notUsedMemoryStart + pageSize))
  enableKernelPaging

def boot : Frames := ⟨[], fun _ _ => none, false, []⟩

def run (files : List File) : FrameM PUnit := do
  ksetupKernelPaging
  files.forM load

/-! ## the use of a frame -/

/-- the frame at `t` is taken for `u` -/
def At (a : Frames) (t : Nat) (u : Use) : Prop := ∃ i, a.uses[i]? = some u ∧ t = frameAt i

theorem At.unique {a : Frames} {t : Nat} {u v : Use} (h : a.At t u) (h' : a.At t v) : u = v := by
  obtain ⟨i, hi, rfl⟩ := h
  obtain ⟨j, hj, e⟩ := h'
  rw [frameAt_inj e, hj] at hi
  exact (Option.some.inj hi).symm

theorem At.ne {a : Frames} {t t' : Nat} {u v : Use} (h : a.At t u) (h' : a.At t' v) (hne : u ≠ v) :
    t ≠ t' := by
  rintro rfl
  exact hne (h.unique h')

theorem At.lt {a : Frames} {t : Nat} {u : Use} (h : a.At t u) : t + 4096 ≤ frameAt a.uses.length := by
  obtain ⟨i, hi, rfl⟩ := h
  have := (List.getElem?_eq_some_iff.mp hi).1
  rw [frameAt_eq, frameAt_eq]
  omega

theorem At.aligned {a : Frames} {t : Nat} {u : Use} (h : a.At t u) : t % 4096 = 0 := by
  obtain ⟨i, -, rfl⟩ := h
  rw [frameAt_eq]
  omega

theorem At.low {a : Frames} {t : Nat} {u : Use} (h : a.At t u) : freeMemoryPageStart ≤ t := by
  obtain ⟨i, -, rfl⟩ := h
  exact Nat.le_add_right _ _

theorem at_push {a : Frames} {u v : Use} {t : Nat} :
    (a.push u).At t v ↔ a.At t v ∨ t = frameAt a.uses.length ∧ v = u := by
  constructor
  · rintro ⟨i, hi, rfl⟩
    change (a.uses ++ [u])[i]? = some v at hi
    by_cases hlt : i < a.uses.length
    · rw [List.getElem?_append_left hlt] at hi
      exact .inl ⟨i, hi, rfl⟩
    · rw [List.getElem?_append_right (by omega), List.getElem?_singleton] at hi
      by_cases h0 : i - a.uses.length = 0
      · rw [if_pos h0] at hi
        have e : i = a.uses.length := by omega
        exact .inr ⟨by rw [e], (Option.some.inj hi).symm⟩
      · rw [if_neg h0] at hi
        cases hi
  · rintro (⟨i, hi, rfl⟩ | ⟨rfl, rfl⟩)
    · have hlt := (List.getElem?_eq_some_iff.mp hi).1
      refine ⟨i, ?_, rfl⟩
      show (a.uses ++ [u])[i]? = some v
      rw [List.getElem?_append_left hlt, hi]
    · refine ⟨a.uses.length, ?_, rfl⟩
      show (a.uses ++ [v])[a.uses.length]? = some v
      rw [List.getElem?_append_right (Nat.le_refl _), Nat.sub_self]
      rfl

/-- the next frame is none of those taken -/
theorem At.fresh {a : Frames} {t : Nat} {u : Use} (h : a.At t u) : t ≠ frameAt a.uses.length := by
  have := h.lt
  omega

theorem at_of_table {a : Frames} {d j t : Nat} (h : a.table d j = some t) : a.At t (.table d j) := by
  obtain ⟨i, hi, rfl⟩ := Option.map_eq_some_iff.mp h
  obtain ⟨hlt, hu, -⟩ := List.findIdx?_eq_some_iff_getElem.mp hi
  exact ⟨i, List.getElem?_eq_some_iff.mpr ⟨hlt, of_decide_eq_true hu⟩, rfl⟩

/-- a frame that is taken stays taken -/
theorem at_of_grown {a b : Frames} {t : Nat} {u : Use} (h : a.uses <+: b.uses) (ht : a.At t u) :
    b.At t u := by
  obtain ⟨i, hi, rfl⟩ := ht
  obtain ⟨us, hus⟩ := h
  refine ⟨i, ?_, rfl⟩
  rw [← hus, List.getElem?_append_left (List.getElem?_eq_some_iff.mp hi).1]
  exact hi

/-- no frame is the table of two slots -/
theorem table_inj {a : Frames} {d j d' j' t : Nat} (h : a.table d j = some t)
    (h' : a.table d' j' = some t) : d = d' ∧ j = j' := by
  injection (at_of_table h).unique (at_of_table h') with h1 h2
  exact ⟨h1, h2⟩

theorem table_push (a : Frames) (u : Use) (d j : Nat) :
    (a.push u).table d j
      = (a.table d j).or (if u = .table d j then some (frameAt a.uses.length) else none) := by
  unfold table push
  rw [List.findIdx?_append]
  cases a.uses.findIdx? fun u => decide (u = .table d j) with
  | some i => rfl
  | none =>
    by_cases h : u = .table d j
    · simp [h]
    · simp [h]

theorem table_push_other {a : Frames} {u : Use} {d j : Nat} (h : u ≠ .table d j) :
    (a.push u).table d j = a.table d j := by
  rw [table_push, if_neg h, Option.or_none]

theorem table_push_some {a : Frames} {d j t : Nat} (u : Use) (h : a.table d j = some t) :
    (a.push u).table d j = some t := by
  rw [table_push, h]
  rfl

theorem table_push_self {a : Frames} {d j : Nat} (h : a.table d j = none) :
    (a.push (.table d j)).table d j = some (frameAt a.uses.length) := by
  rw [table_push, h, if_pos rfl]
  rfl

theorem map_point (a : Frames) (d p x d' p' : Nat) :
    (a.point d p x).map d' p' = if d' = d ∧ p' = p then some x else a.map d' p' := rfl

/-! ## the invariant -/

structure Ok (a : Frames) : Prop where
  kernel : a.At kernelDirectory .directory
  owner : ∀ t d j, a.At t (.table d j) → a.At d .directory
  dom : ∀ d p, a.table d (p / 1024) = none → a.map d p = none
  physical : ∀ d p x, a.map d p = some x → x % 4096 = 0 ∧ x < 2^32
  own : ∀ d p x, d ≠ kernelDirectory → a.map d p = some x →
    KernelPage p ∧ x = 4096 * p ∨ a.At x (.page d)
  few : a.uses.length ≤ frameLimit
  kernelTables : a.isPagingEnabled = true →
    ∀ i ≤ frameLimit, (a.table kernelDirectory (frameAt i / 4194304)).isSome ↔ i < frameLimit
  processes : ∀ d ∈ a.directories, a.At d .directory ∧ d ≠ kernelDirectory
  nodup : a.directories.Nodup

/-- a frame taken for `u` keeps the invariant -/
theorem ok_push {a : Frames} {u : Use} (h : a.Ok) (hlt : a.uses.length < frameLimit)
    (hu : ∀ d j, u = .table d j → a.At d .directory ∧ (a.isPagingEnabled = true → d ≠ kernelDirectory)) :
    (a.push u).Ok where
  kernel := at_push.mpr (.inl h.kernel)
  owner := by
    intro t d j ht
    rcases at_push.mp ht with ht | ⟨-, e⟩
    · exact at_push.mpr (.inl (h.owner t d j ht))
    · exact at_push.mpr (.inl (hu d j e.symm).1)
  dom := by
    intro d p hn
    rw [table_push, Option.or_eq_none_iff] at hn
    exact h.dom d p hn.1
  physical := h.physical
  own := fun d p x hd hx => (h.own d p x hd hx).imp_right fun hx => at_push.mpr (.inl hx)
  few := by
    show (a.uses ++ [u]).length ≤ _
    rw [List.length_append, List.length_singleton]
    omega
  kernelTables := by
    intro hp i hi
    rw [← h.kernelTables hp i hi, table_push_other]
    intro e
    exact (hu _ _ e).2 hp rfl
  processes := fun d hd => ⟨at_push.mpr (.inl (h.processes d hd).1), (h.processes d hd).2⟩
  nodup := h.nodup

/-- so does mapping a page that has a table -/
theorem ok_point {a : Frames} {d p x : Nat} (h : a.Ok) (ht : a.table d (p / 1024) ≠ none)
    (hx : x % 4096 = 0 ∧ x < 2^32)
    (ho : d ≠ kernelDirectory → KernelPage p ∧ x = 4096 * p ∨ a.At x (.page d)) : (a.point d p x).Ok where
  kernel := h.kernel
  owner := h.owner
  dom := by
    intro d' p' hn
    rw [map_point, if_neg]
    · exact h.dom d' p' hn
    · rintro ⟨rfl, rfl⟩
      exact ht hn
  physical := by
    intro d' p' x' hx'
    rw [map_point] at hx'
    split at hx'
    · rw [← Option.some.inj hx']
      exact hx
    · exact h.physical d' p' x' hx'
  own := by
    intro d' p' x' hd hx'
    rw [map_point] at hx'
    split at hx'
    · rename_i e
      obtain ⟨rfl, rfl⟩ := e
      rw [← Option.some.inj hx']
      exact ho hd
    · exact h.own d' p' x' hd hx'
  few := h.few
  kernelTables := h.kernelTables
  processes := h.processes
  nodup := h.nodup

/-! ## what a step takes -/

/-- the slots of directory `d` that have a table -/
def slots (a : Frames) (d : Nat) : Finset Nat :=
  (Finset.range 1024).filter fun j => (a.table d j).isSome

theorem table_congr {a b : Frames} (h : b.uses = a.uses) (d j : Nat) : b.table d j = a.table d j := by
  unfold table
  rw [h]

theorem slots_congr {a b : Frames} {d : Nat} (h : ∀ j, b.table d j = a.table d j) :
    b.slots d = a.slots d := by
  unfold slots
  simp only [h]

theorem slots_push_table {a : Frames} {d j : Nat} (hj : j < 1024) :
    (a.push (.table d j)).slots d = a.slots d ∪ {j} := by
  ext i
  have e : (Use.table d j = .table d i) ↔ i = j := by
    simp [eq_comm]
  simp only [slots, Finset.mem_union, Finset.mem_filter, Finset.mem_range, Finset.mem_singleton,
    table_push, e]
  by_cases h : i = j
  · subst h
    simp [hj]
  · simp [h]

/-- `b` is a later state than `a`; of the processes' maps, only that of `d` has changed -/
structure Grows (d : Nat) (a b : Frames) : Prop where
  uses : a.uses <+: b.uses
  enabled : b.isPagingEnabled = a.isPagingEnabled
  directories : b.directories = a.directories
  others : ∀ d' p, d' ≠ d → d' ≠ kernelDirectory → b.map d' p = a.map d' p
  defined : ∀ d' p, a.map d' p ≠ none → b.map d' p ≠ none

theorem Grows.refl (d : Nat) (a : Frames) : Grows d a a :=
  ⟨List.prefix_rfl, rfl, rfl, fun _ _ _ _ => rfl, fun _ _ h => h⟩

theorem Grows.trans {d : Nat} {a b c : Frames} (h : Grows d a b) (h' : Grows d b c) : Grows d a c where
  uses := h.uses.trans h'.uses
  enabled := h'.enabled.trans h.enabled
  directories := h'.directories.trans h.directories
  others := fun d' p hd hk => (h'.others d' p hd hk).trans (h.others d' p hd hk)
  defined := fun d' p hn => h'.defined d' p (h.defined d' p hn)

theorem Grows.at {d t : Nat} {a b : Frames} {u : Use} (h : Grows d a b) (ht : a.At t u) : b.At t u :=
  at_of_grown h.uses ht

/-- from `a` to `b`, `n` pages and the tables for the slots `S` of `d` -/
structure Takes (d n : Nat) (S : Finset Nat) (a b : Frames) : Prop where
  ok : b.Ok
  grows : Grows d a b
  slots : b.slots d = a.slots d ∪ S
  length : b.uses.length + (a.slots d).card = a.uses.length + n + (b.slots d).card

/-- a step that needed so much has used up what there is -/
def Exhausts (d n : Nat) (S : Finset Nat) (a : Frames) (e : Fatal) (b : Frames) : Prop :=
  e = .kernelStackOverflow ∧ b.uses.length = frameLimit ∧
    frameLimit + (a.slots d).card < a.uses.length + n + (a.slots d ∪ S).card

theorem Takes.refl {d : Nat} {a : Frames} (h : a.Ok) : Takes d 0 ∅ a a :=
  ⟨h, .refl d a, (Finset.union_empty _).symm, rfl⟩

theorem Takes.trans {d n m : Nat} {S T : Finset Nat} {a b c : Frames} (h : Takes d n S a b)
    (h' : Takes d m T b c) : Takes d (n + m) (S ∪ T) a c where
  ok := h'.ok
  grows := h.grows.trans h'.grows
  slots := by rw [h'.slots, h.slots, Finset.union_assoc]
  length := by
    have h1 := h.length
    have h2 := h'.length
    omega

theorem Exhausts.after {d n m : Nat} {S T : Finset Nat} {a b c : Frames} {e : Fatal}
    (h' : Exhausts d m T b e c) (h : Takes d n S a b) : Exhausts d (n + m) (S ∪ T) a e c := by
  obtain ⟨he, hl, hlt⟩ := h'
  refine ⟨he, hl, ?_⟩
  have h1 := h.length
  rw [← Finset.union_assoc, ← h.slots]
  omega

theorem Exhausts.more {d n m : Nat} {S T : Finset Nat} {a b : Frames} {e : Fatal}
    (h : Exhausts d n S a e b) : Exhausts d (n + m) (S ∪ T) a e b := by
  obtain ⟨he, hl, hlt⟩ := h
  refine ⟨he, hl, ?_⟩
  have hc : (a.slots d ∪ S).card ≤ (a.slots d ∪ (S ∪ T)).card :=
    Finset.card_le_card (Finset.union_subset_union_right Finset.subset_union_left)
  omega

/-- two steps, one after the other -/
theorem takes_bind {α β : Type} {d n m : Nat} {S T : Finset Nat} {a : Frames} {x : FrameM α}
    {f : α → FrameM β} {P : α → Frames → Prop} {Q : β → Frames → Prop}
    (hx : Ends (fun v b => Takes d n S a b ∧ P v b) (Exhausts d n S a) (x a))
    (hf : ∀ v b, Takes d n S a b → P v b →
      Ends (fun w c => Takes d m T b c ∧ Q w c) (Exhausts d m T b) (f v b)) :
    Ends (fun w c => Takes d (n + m) (S ∪ T) a c ∧ Q w c) (Exhausts d (n + m) (S ∪ T) a)
      ((x >>= f) a) := by
  refine (hx.imp (fun v b h => h) (fun e b h => h.more)).bind ?_
  rintro v b ⟨hb, hP⟩
  exact (hf v b hb hP).imp (fun w c h => ⟨hb.trans h.1, h.2⟩) (fun e c h => h.after hb)

end Frames

end StarOS
