import StarOS.Heap.Tiled

/-!
# The tables of the heap wear out

A client of the heap calls `malloc` and `free` and keeps the list of the pointers it holds
(`Client.live`).  It is well behaved (`Client.Allowed`) if it frees only pointers it holds and
never holds more than 1000.  Such a client would expect (`Client.Served`) that `malloc` halts only
for want of a large enough free block, and that `free` never halts.

Neither is so: an entry of `Allocated_blocks` is never reused, and a block that `free` cannot merge
takes a new entry of `Free_blocks` for good.  `served_iff_room` says exactly when a call is served,
`does_not_wear_out_iff` says it for whole runs, and `ten_thousand_rounds` is a run of
`p = malloc(8); free(p)` that halts with all but no memory in use.
-/

namespace StarOS
open Lib

/-- the heap and the pointers its client holds -/
structure Client where
  heap : Heap
  live : List Nat

namespace Client

def boot (location : DataAddress) : Client := ⟨Heap.boot location, []⟩

def call (c : Client) : HeapCall → Option Client
  | .malloc size => (mallocArray c.heap size).map fun r => ⟨r.2, r.1 :: c.live⟩
  | .free p => (freeArray c.heap p).map fun h => ⟨h, c.live.erase p⟩

def Step (c : Client) (k : HeapCall) (c' : Client) : Prop := c.call k = some c'

/-- at most 1000 pointers are held, and only held pointers are freed -/
def Allowed (c : Client) : HeapCall → Prop
  | .malloc _ => c.live.length < 1000
  | .free p => p ∈ c.live

/-- `malloc` halts only if no valid free block is large enough; `free` does not halt -/
def Served (c : Client) : HeapCall → Prop
  | .malloc size => c.call (.malloc size) = none →
      ∀ h₀, c.heap.ensureInit = some h₀ → ∀ b ∈ h₀.freeBlocks, b.fits (alignSize size.toNat) = false
  | .free p => c.call (.free p) ≠ none

/-- `malloc`: a free entry of `Allocated_blocks` is left, if a block fits at all; `free`: a free
entry of `Free_blocks` is left, or the block meets a valid free block -/
def Room (c : Client) : HeapCall → Prop
  | .malloc size => ∀ h₀, c.heap.ensureInit = some h₀ →
      (∃ b ∈ h₀.freeBlocks, b.fits (alignSize size.toNat) = true) →
        h₀.allocatedBlocks.length < allocatedTableLength
  | .free p => ∀ a, c.heap.allocatedBlocks.find? (fun b => b.isValid && b.start == p) = some a →
      c.heap.freeBlocks.length < tableLength ∨ ∃ b ∈ c.heap.freeBlocks, a.meets b = true

/-! ## the invariant of a client -/

/-- the pointers held are the starts of the valid allocated blocks, and no table is overfull -/
structure Inv (c : Client) : Prop where
  tiled : c.heap.Tiled
  live_perm : c.live.Perm ((c.heap.allocatedBlocks.filter MemoryBlock.isValid).map MemoryBlock.start)
  allocated_le : c.heap.allocatedBlocks.length ≤ allocatedTableLength
  free_le : c.heap.freeBlocks.length ≤ tableLength

theorem inv_boot (location : DataAddress) : (boot location).Inv where
  tiled := tiled_boot location
  live_perm := List.Perm.refl _
  allocated_le := Nat.zero_le _
  free_le := Nat.zero_le _

theorem Inv.tiled_step {c c' : Client} {k : HeapCall} (hi : c.Inv) (hs : c.Step k c') :
    c'.heap.Tiled := by
  have hh : c.heap.Step k c'.heap := by
    cases k with
    | malloc size =>
      obtain ⟨r, hr, rfl⟩ := Option.map_eq_some_iff.mp hs
      show (mallocArray c.heap size).map Prod.snd = some r.2
      rw [hr]
      rfl
    | free p =>
      obtain ⟨h, hr, rfl⟩ := Option.map_eq_some_iff.mp hs
      exact hr
  have ht := StarOS.tiled_step hi.tiled hh
  exact Heap.Tiled.of_init ht.1 ht.2

/-- setting the tables up loses no allocated block and overfills no table -/
theorem Inv.ensureInit {c : Client} {h₀ : Heap} (hi : c.Inv) (h : c.heap.ensureInit = some h₀) :
    h₀.allocatedBlocks = c.heap.allocatedBlocks ∧ h₀.freeBlocks.length ≤ tableLength := by
  rcases ensureInit_cases h with ⟨-, rfl⟩ | ⟨hm, rfl⟩
  · exact ⟨rfl, hi.free_le⟩
  · obtain ⟨hf, ha⟩ := hi.tiled.2 hm
    refine ⟨ha.symm, ?_⟩
    simp [hf, tableLength]

theorem inv_malloc {c c' : Client} {size : UInt32} (hi : c.Inv) (hs : c.Step (.malloc size) c') :
    c'.Inv := by
  have ht := hi.tiled_step hs
  obtain ⟨⟨p, h'⟩, hr, rfl⟩ := Option.map_eq_some_iff.mp hs
  obtain ⟨h₀, pre, b, post, h0, hf, -, rfl, hl, rfl⟩ := mallocArray_some hr
  obtain ⟨ha, hfl⟩ := hi.ensureInit h0
  refine ⟨ht, ?_, ?_, ?_⟩
  · show (b.start :: c.live).Perm _
    simp only [List.filter_append, List.map_append]
    rw [ha]
    exact (hi.live_perm.cons b.start).trans (List.perm_append_singleton _ _).symm
  · have := hi.allocated_le
    rw [ha] at hl
    simp only [ha, List.length_append, List.length_singleton]
    omega
  · rw [hf] at hfl
    simpa using hfl

theorem inv_free {c c' : Client} {p : Nat} (hi : c.Inv) (hs : c.Step (.free p) c') : c'.Inv := by
  have ht := hi.tiled_step hs
  obtain ⟨h', hr, rfl⟩ := Option.map_eq_some_iff.mp hs
  obtain ⟨pre, a, post, ha, hav, rfl, ha', -, hcase⟩ := freeArray_some hr
  refine ⟨ht, ?_, ?_, ?_⟩
  · have hold := hi.live_perm
    rw [ha] at hold
    have hmid : ((pre ++ a :: post).filter MemoryBlock.isValid).Perm
        (a :: (pre ++ post).filter MemoryBlock.isValid) := filter_middle _ _ hav
    have hnew := (hold.trans (hmid.map MemoryBlock.start)).erase a.start
    rw [List.map_cons, List.erase_cons_head] at hnew
    show (c.live.erase a.start).Perm _
    rw [ha', List.filter_append, List.filter_cons_of_neg (by simp), ← List.filter_append]
    exact hnew
  · have := hi.allocated_le
    rw [ha] at this
    rw [ha']
    simpa using this
  · have hfl := hi.free_le
    rcases hcase with ⟨fpre, b, fpost, hfree, -, hfree'⟩ | ⟨hne, hfree'⟩
    · rw [hfree] at hfl
      rw [hfree']
      simpa using hfl
    · rw [hfree', List.length_append, List.length_singleton]
      omega

theorem inv_step {c c' : Client} {k : HeapCall} (hi : c.Inv) (hs : c.Step k c') : c'.Inv := by
  cases k with
  | malloc size => exact inv_malloc hi hs
  | free p => exact inv_free hi hs

/-! ## when a call is served -/

theorem served_malloc_iff {c : Client} (hi : c.Inv) (size : UInt32) :
    c.Served (.malloc size) ↔ c.Room (.malloc size) := by
  obtain ⟨h₀, h0⟩ := ensureInit_isSome c.heap
  have hle := hi.allocated_le
  rw [← (hi.ensureInit h0).1] at hle
  have hnone : c.call (.malloc size) = none ↔ mallocArray c.heap size = none :=
    Option.map_eq_none_iff
  simp only [Served, Room, hnone, mallocArray_eq_none h0, h0, Option.some.injEq, forall_eq']
  constructor
  · rintro hs ⟨b, hb, hfit⟩
    by_contra hl
    have := hs (Or.inr (by omega)) b hb
    rw [hfit] at this
    cases this
  · rintro hr (hs | hl) b hb
    · exact hs b hb
    · by_contra hfit
      have := hr ⟨b, hb, by simpa using hfit⟩
      omega

theorem served_free_iff {c : Client} (hi : c.Inv) {p : Nat} (hp : p ∈ c.live) :
    c.Served (.free p) ↔ c.Room (.free p) := by
  have hnone : c.call (.free p) = none ↔ freeArray c.heap p = none := Option.map_eq_none_iff
  have hle := hi.free_le
  -- a pointer held is the start of a valid allocated block
  have hfind : ∃ a, c.heap.allocatedBlocks.find? (fun b => b.isValid && b.start == p) = some a := by
    obtain ⟨b, hb, hbp⟩ := List.mem_map.mp (hi.live_perm.mem_iff.mp hp)
    obtain ⟨hb, hbv⟩ := List.mem_filter.mp hb
    apply Option.isSome_iff_exists.mp
    rw [List.find?_isSome]
    exact ⟨b, hb, by simp [hbv, hbp]⟩
  obtain ⟨a, ha⟩ := hfind
  simp only [Served, Room, ne_eq, hnone, freeArray_eq_none, ha, Option.some.injEq, forall_eq']
  constructor
  · intro hs
    by_contra hr
    obtain ⟨hlen, hmeet⟩ := not_or.mp hr
    apply hs
    refine ⟨fun b hb => ?_, by omega⟩
    by_contra hne
    exact hmeet ⟨b, hb, by simpa using hne⟩
  · rintro (hlen | ⟨b, hb, hmeet⟩) ⟨h1, h2⟩
    · omega
    · rw [h1 b hb] at hmeet
      cases hmeet

theorem served_iff_room {c : Client} (hi : c.Inv) (k : HeapCall) (hk : c.Allowed k) :
    c.Served k ↔ c.Room k := by
  cases k with
  | malloc size => exact served_malloc_iff hi size
  | free p => exact served_free_iff hi hk

/-- **A well-behaved client is served along a whole run exactly if every `malloc` of it finds a
free entry in the table of allocated blocks, and every `free` a free entry in the table of free
blocks or a block to merge with.** -/
theorem does_not_wear_out_iff (location : DataAddress) (ks : List HeapCall)
    (hk : Along Step Allowed (boot location) ks) :
    Along Step Served (boot location) ks ↔ Along Step Room (boot location) ks :=
  Along.iff_of_inv (I := Inv) (fun _ _ _ hi _ _ hs => inv_step hi hs)
    (fun _ k hi hk => served_iff_room hi k hk) (inv_boot location) hk

/-! ## rounds of `p = malloc(8); free(p)` -/

def spentBlock : MemoryBlock := ⟨freeMemoryStart, freeMemoryStart + 8, 8, false⟩

/-- the client after `k` rounds: the whole heap is free, `k` entries are spent -/
def afterRounds (location : DataAddress) (k : Nat) : Client where
  heap := ⟨location, true,
    [⟨freeMemoryStart, freeMemoryStart + freeMemoryLength, freeMemoryLength, true⟩],
    List.replicate k spentBlock⟩
  live := []

/-- between the `malloc` and the `free` of a round -/
def inRound (location : DataAddress) (k : Nat) : Client where
  heap := ⟨location, true,
    [⟨freeMemoryStart + 8, freeMemoryStart + freeMemoryLength, freeMemoryLength - 8, true⟩],
    List.replicate k spentBlock ++ [{ spentBlock with isValid := true }]⟩
  live := [freeMemoryStart]

theorem round_malloc (location : DataAddress) (k : Nat) (hk : k < allocatedTableLength) :
    (afterRounds location k).call (.malloc 8) = some (inRound location k) := by
  have hl : (List.replicate k spentBlock).length ≠ allocatedTableLength := by
    rw [List.length_replicate]
    omega
  show ((if (List.replicate k spentBlock).length = allocatedTableLength then none
    else some (freeMemoryStart, (inRound location k).heap)).map
      fun r => (⟨r.2, [r.1]⟩ : Client)) = _
  rw [if_neg hl]
  rfl

theorem round_free (location : DataAddress) (k : Nat) :
    (inRound location k).call (.free freeMemoryStart) = some (afterRounds location (k + 1)) := by
  have ht : takeAllocated freeMemoryStart
      (List.replicate k spentBlock ++ [{ spentBlock with isValid := true }])
      = some ({ spentBlock with isValid := true }, List.replicate (k + 1) spentBlock) := by
    induction k with
    | zero => rfl
    | succ k ih =>
      rw [List.replicate_succ, List.cons_append, takeAllocated, ih]
      rfl
  show ((takeAllocated freeMemoryStart
      (List.replicate k spentBlock ++ [{ spentBlock with isValid := true }])).bind _).map _ = _
  rw [ht]
  rfl

/-- the first call sets the tables up -/
theorem boot_malloc (location : DataAddress) :
    (boot location).call (.malloc 8) = some (inRound location 0) := by
  have hl : ¬ (location.val < dataMemoryStart ∨ location.val > dataMemoryEnd) := by
    have := location.property
    omega
  show (((if location.val < dataMemoryStart ∨ location.val > dataMemoryEnd then none
    else some _).map _).bind _).map _ = _
  rw [if_neg hl]
  rfl

/-- `k` rounds, then one more `malloc` -/
def rounds : Nat → List HeapCall
  | 0 => [.malloc 8]
  | k + 1 => .malloc 8 :: .free freeMemoryStart :: rounds k

/-- rounds that leave `Allocated_blocks` no further than full are all allowed -/
theorem rounds_allowed (location : DataAddress) (k i : Nat) (h : i + k ≤ allocatedTableLength) :
    Along Step Allowed (afterRounds location i) (rounds k) := by
  induction k generalizing i with
  | zero => exact ⟨by simp [Allowed, afterRounds], fun _ _ => trivial⟩
  | succ k ih =>
    refine ⟨by simp [Allowed, afterRounds], fun t ht => ?_⟩
    have e := (round_malloc location i (by omega)).symm.trans ht
    cases e
    refine ⟨by simp [Allowed, inRound], fun t ht => ?_⟩
    have e := (round_free location i).symm.trans ht
    cases e
    exact ih (i + 1) (by omega)

/-- once `Allocated_blocks` is full, `malloc` halts although the whole heap is free -/
theorem rounds_not_served (location : DataAddress) (k i : Nat) (h : i + k = allocatedTableLength) :
    ¬ Along Step Served (afterRounds location i) (rounds k) := by
  induction k generalizing i with
  | zero =>
    rintro ⟨hs, -⟩
    have hi : (afterRounds location i).heap.ensureInit = some (afterRounds location i).heap := rfl
    have hn : (afterRounds location i).call (.malloc 8) = none := by
      refine Option.map_eq_none_iff.mpr ((mallocArray_eq_none hi).mpr (Or.inr ?_))
      show (List.replicate i spentBlock).length = allocatedTableLength
      rw [List.length_replicate]
      omega
    exact absurd (hs hn _ hi _ (List.mem_singleton_self _)) (by decide)
  | succ k ih =>
    rintro ⟨-, hs⟩
    obtain ⟨-, hs⟩ := hs _ (round_malloc location i (by omega))
    exact ih (i + 1) (by omega) (hs _ (round_free location i))

/-- **10240 rounds of `p = malloc(8); free(p)` leave no memory in use; the next `malloc` halts.** -/
theorem ten_thousand_rounds : ¬ ∀ (location : DataAddress) (ks : List HeapCall),
    Along Step Allowed (boot location) ks → Along Step Served (boot location) ks := by
  intro hall
  let location : DataAddress := ⟨dataMemoryStart, by decide⟩
  have hs := hall location (rounds 10240) ⟨by simp [Allowed, boot], fun t ht => ?_⟩
  · obtain ⟨-, hs⟩ := hs
    obtain ⟨-, hs⟩ := hs _ (boot_malloc location)
    exact rounds_not_served location 10239 1 rfl (hs _ (round_free location 0))
  · have e := (boot_malloc location).symm.trans ht
    cases e
    refine ⟨by simp [Allowed, inRound], fun t ht => ?_⟩
    have e := (round_free location 0).symm.trans ht
    cases e
    exact rounds_allowed location 10239 1 (by decide)

/-- rounds that do not fill `Allocated_blocks` have room -/
theorem rounds_room (location : DataAddress) (k i : Nat) (h : i + k < allocatedTableLength) :
    Along Step Room (afterRounds location i) (rounds k) := by
  have hmalloc : ∀ i < allocatedTableLength, (afterRounds location i).Room (.malloc 8) := by
    intro i hi h₀ h0 _
    have e : some (afterRounds location i).heap = some h₀ := h0
    cases e
    show (List.replicate i spentBlock).length < allocatedTableLength
    rwa [List.length_replicate]
  induction k generalizing i with
  | zero => exact ⟨hmalloc i (by omega), fun _ _ => trivial⟩
  | succ k ih =>
    refine ⟨hmalloc i (by omega), fun t ht => ?_⟩
    have e := (round_malloc location i (by omega)).symm.trans ht
    cases e
    refine ⟨fun a _ => .inl (by decide : 1 < tableLength), fun t ht => ?_⟩
    have e := (round_free location i).symm.trans ht
    cases e
    exact ih (i + 1) (by omega)

/-- two rounds are allowed, have room and are served -/
theorem does_not_wear_out_two :
    Along Step Allowed (boot ⟨dataMemoryStart, by decide⟩) (rounds 2) ∧
      Along Step Room (boot ⟨dataMemoryStart, by decide⟩) (rounds 2) ∧
      Along Step Served (boot ⟨dataMemoryStart, by decide⟩) (rounds 2) := by
  have hallowed : Along Step Allowed (boot ⟨dataMemoryStart, by decide⟩) (rounds 2) := by
    refine ⟨by simp [Allowed, boot], fun t ht => ?_⟩
    have e := (boot_malloc _).symm.trans ht
    cases e
    refine ⟨by simp [Allowed, inRound], fun t ht => ?_⟩
    have e := (round_free _ 0).symm.trans ht
    cases e
    exact rounds_allowed _ 1 1 (by decide)
  have hroom : Along Step Room (boot ⟨dataMemoryStart, by decide⟩) (rounds 2) := by
    refine ⟨fun h₀ h0 _ => ?_, fun t ht => ?_⟩
    · rw [((inv_boot _).ensureInit h0).1]
      decide
    · have e := (boot_malloc _).symm.trans ht
      cases e
      refine ⟨fun a _ => .inl (by decide : 1 < tableLength), fun t ht => ?_⟩
      have e := (round_free _ 0).symm.trans ht
      cases e
      exact rounds_room _ 1 1 (by decide)
  exact ⟨hallowed, hroom, (does_not_wear_out_iff _ _ hallowed).mpr hroom⟩

end Client
end StarOS
