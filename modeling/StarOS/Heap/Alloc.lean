import StarOS.Layout

/-!
# The kernel heap (`memory_management.cpp`)

The two tables `Free_blocks` and `Allocated_blocks` are the lists of their entries below
`Blocks_count` and `Allocated_blocks_count`; the counters are the lengths of the lists.  Entries
are never taken out of a table: `free` only clears the flag `is_valid` of an allocated block.

`none` is a halt in `fatal`:

* `mallocArray h size`   `some (p, h')`, or a halt: no valid free block is large enough, or the
                         table of allocated blocks is full;
* `freeArray h p`        `some h'`, or a halt: no valid allocated block starts at `p`, or the block
                         cannot be merged and the table of free blocks is full.

The loops over the tables are `firstFit`, `takeAllocated` and `mergeInto`.
-/

namespace StarOS

/-- `struct MemoryBlock`; the field `end` of the source is `stop` here -/
structure MemoryBlock where
  start : Nat
  stop : Nat
  size : Nat
  isValid : Bool
deriving DecidableEq, Repr

def tableLength : Nat := 1024
def allocatedTableLength : Nat := 1024 * 10

/-- the variables of `memory_management.cpp`; `location` is the address the linker gives to
`Free_blocks` -/
structure Heap where
  location : DataAddress
  mallocInitialized : Bool
  freeBlocks : List MemoryBlock
  allocatedBlocks : List MemoryBlock

/-- before the first `malloc` -/
def Heap.boot (location : DataAddress) : Heap := ⟨location, false, [], []⟩

/-- `_malloc_array_init` -/
def mallocArrayInit (h : Heap) : Option Heap :=
  if h.location.val < dataMemoryStart ∨ h.location.val > dataMemoryEnd then none
  else some { h with
    freeBlocks := h.freeBlocks ++
      [⟨freeMemoryStart, wrap32 (freeMemoryStart + freeMemoryLength), freeMemoryLength, true⟩]
    allocatedBlocks := [] }

/-- the lazy initialisation at the head of `_malloc_array` -/
def Heap.ensureInit (h : Heap) : Option Heap :=
  if h.mallocInitialized then some h
  else (mallocArrayInit h).map fun h' => { h' with mallocInitialized := true }

/-- round up to 8 bytes, in 32-bit arithmetic -/
def alignSize (size : Nat) : Nat :=
  if size % 8 ≠ 0 then wrap32 (size + (8 - size % 8)) else size

/-- a valid block with room for `size` bytes -/
def MemoryBlock.fits (size : Nat) (b : MemoryBlock) : Bool := b.isValid && decide (size ≤ b.size)

/-- carve `size` bytes off the front -/
def MemoryBlock.carve (size : Nat) (b : MemoryBlock) : MemoryBlock :=
  { b with start := wrap32 (b.start + size), size := b.size - size }

/-- the loop of `_malloc_array`: the first block that fits, and the table with it carved -/
def firstFit (size : Nat) : List MemoryBlock → Option (MemoryBlock × List MemoryBlock)
  | [] => none
  | b :: bs =>
    if b.fits size then some (b, b.carve size :: bs)
    else (firstFit size bs).map fun r => (r.1, b :: r.2)

/-- `_malloc_array`.  The block is carved before the table of allocated blocks is checked. -/
def mallocArray (h : Heap) (size : UInt32) : Option (Nat × Heap) :=
  h.ensureInit.bind fun h =>
    let size := alignSize size.toNat
    (firstFit size h.freeBlocks).bind fun r =>
      let p := r.1.start
      if h.allocatedBlocks.length = allocatedTableLength then none
      else some (p, { h with
        freeBlocks := r.2
        allocatedBlocks := h.allocatedBlocks ++ [⟨p, (r.1.carve size).start, size, true⟩] })

/-- the first loop of `_free_array`: the first valid block that starts at `p`, and the table with
its flag cleared -/
def takeAllocated (p : Nat) : List MemoryBlock → Option (MemoryBlock × List MemoryBlock)
  | [] => none
  | b :: bs =>
    if b.isValid = true ∧ b.start = p then some (b, { b with isValid := false } :: bs)
    else (takeAllocated p bs).map fun r => (r.1, b :: r.2)

/-- the valid free block that starts where `a` ends -/
def MemoryBlock.meets (a b : MemoryBlock) : Bool := b.isValid && decide (a.stop = b.start)

/-- the second loop of `_free_array`: the table with `a` merged into the first block it meets -/
def mergeInto (a : MemoryBlock) : List MemoryBlock → Option (List MemoryBlock)
  | [] => none
  | b :: bs =>
    if a.meets b then some ({ b with start := a.start, size := wrap32 (b.size + a.size) } :: bs)
    else (mergeInto a bs).map fun bs' => b :: bs'

/-- `_free_array` -/
def freeArray (h : Heap) (p : Nat) : Option Heap :=
  (takeAllocated p h.allocatedBlocks).bind fun r =>
    match mergeInto r.1 h.freeBlocks with
    | some bs => some { h with freeBlocks := bs, allocatedBlocks := r.2 }
    | none =>
      if h.freeBlocks.length = tableLength then none
      else some { h with freeBlocks := h.freeBlocks ++ [r.1], allocatedBlocks := r.2 }

/-- a call of the entry points `malloc` and `free` -/
inductive HeapCall where
  | malloc (size : UInt32)
  | free (p : Nat)
deriving DecidableEq, Repr

/-- the heap after a call; `none` if the call halts -/
def Heap.call (h : Heap) : HeapCall → Option Heap
  | .malloc size => (mallocArray h size).map Prod.snd
  | .free p => freeArray h p

/-- the step relation of the heap -/
def Heap.Step (h : Heap) (c : HeapCall) (h' : Heap) : Prop := h.call c = some h'

/-! ## what the loops do -/

theorem ensureInit_cases {h h' : Heap} (hi : h.ensureInit = some h') :
    (h.mallocInitialized = true ∧ h' = h) ∨
    (h.mallocInitialized = false ∧ h' = { h with
      mallocInitialized := true
      freeBlocks := h.freeBlocks ++
        [⟨freeMemoryStart, freeMemoryStart + freeMemoryLength, freeMemoryLength, true⟩]
      allocatedBlocks := [] }) := by
  unfold Heap.ensureInit at hi
  cases hm : h.mallocInitialized with
  | true =>
    rw [hm, if_pos rfl] at hi
    exact Or.inl ⟨rfl, (Option.some.inj hi).symm⟩
  | false =>
    have hl : ¬ (h.location.val < dataMemoryStart ∨ h.location.val > dataMemoryEnd) := by
      have := h.location.property
      omega
    simp only [hm, Bool.false_eq_true, if_false, mallocArrayInit, if_neg hl, Option.map_some,
      Option.some.injEq] at hi
    exact Or.inr ⟨rfl, hi.symm⟩

/-- the lazy initialisation never halts: `kernel.ld` puts `Free_blocks` into `.data` -/
theorem ensureInit_isSome (h : Heap) : ∃ h', h.ensureInit = some h' := by
  unfold Heap.ensureInit
  cases hm : h.mallocInitialized with
  | true => exact ⟨h, rfl⟩
  | false =>
    have hl : ¬ (h.location.val < dataMemoryStart ∨ h.location.val > dataMemoryEnd) := by
      have := h.location.property
      omega
    simp only [Bool.false_eq_true, if_false, mallocArrayInit, if_neg hl, Option.map_some]
    exact ⟨_, rfl⟩

theorem firstFit_some {size : Nat} {l : List MemoryBlock} {r : MemoryBlock × List MemoryBlock}
    (h : firstFit size l = some r) :
    ∃ pre post, l = pre ++ r.1 :: post ∧ r.2 = pre ++ r.1.carve size :: post ∧
      r.1.fits size = true := by
  induction l generalizing r with
  | nil => cases h
  | cons b bs ih =>
    unfold firstFit at h
    by_cases hb : b.fits size = true
    · rw [if_pos hb] at h
      cases h
      exact ⟨[], bs, rfl, rfl, hb⟩
    · rw [if_neg hb] at h
      obtain ⟨r', hr', rfl⟩ := Option.map_eq_some_iff.mp h
      obtain ⟨pre, post, h1, h2, h3⟩ := ih hr'
      exact ⟨b :: pre, post, by rw [h1]; rfl, by simp [h2], h3⟩

theorem firstFit_eq_none {size : Nat} {l : List MemoryBlock} :
    firstFit size l = none ↔ ∀ b ∈ l, b.fits size = false := by
  induction l with
  | nil => simp [firstFit]
  | cons b bs ih =>
    unfold firstFit
    by_cases hb : b.fits size = true
    · simp [hb]
    · rw [if_neg hb, Option.map_eq_none_iff, ih]
      simp [Bool.eq_false_iff.mpr hb]

theorem takeAllocated_some {p : Nat} {l : List MemoryBlock} {r : MemoryBlock × List MemoryBlock}
    (h : takeAllocated p l = some r) :
    ∃ pre post, l = pre ++ r.1 :: post ∧ r.2 = pre ++ { r.1 with isValid := false } :: post ∧
      r.1.isValid = true ∧ r.1.start = p := by
  induction l generalizing r with
  | nil => cases h
  | cons b bs ih =>
    unfold takeAllocated at h
    by_cases hb : b.isValid = true ∧ b.start = p
    · rw [if_pos hb] at h
      cases h
      exact ⟨[], bs, rfl, rfl, hb⟩
    · rw [if_neg hb] at h
      obtain ⟨r', hr', rfl⟩ := Option.map_eq_some_iff.mp h
      obtain ⟨pre, post, h1, h2, h3⟩ := ih hr'
      exact ⟨b :: pre, post, by rw [h1]; rfl, by simp [h2], h3⟩

theorem takeAllocated_fst (p : Nat) (l : List MemoryBlock) :
    (takeAllocated p l).map Prod.fst = l.find? fun b => b.isValid && b.start == p := by
  induction l with
  | nil => rfl
  | cons b bs ih =>
    unfold takeAllocated
    by_cases hb : b.isValid = true ∧ b.start = p
    · simp [hb]
    · have hb' : (b.isValid && b.start == p) = false := by
        rw [Bool.eq_false_iff]
        simpa using hb
      rw [if_neg hb, List.find?_cons_of_neg (by simp [hb']), ← ih, Option.map_map]
      rfl

theorem mergeInto_some {a : MemoryBlock} {l l' : List MemoryBlock} (h : mergeInto a l = some l') :
    ∃ pre b post, l = pre ++ b :: post ∧ a.meets b = true ∧
      l' = pre ++ { b with start := a.start, size := wrap32 (b.size + a.size) } :: post := by
  induction l generalizing l' with
  | nil => cases h
  | cons b bs ih =>
    unfold mergeInto at h
    by_cases hb : a.meets b = true
    · rw [if_pos hb] at h
      cases h
      exact ⟨[], b, bs, rfl, hb, rfl⟩
    · rw [if_neg hb] at h
      obtain ⟨bs', hbs', rfl⟩ := Option.map_eq_some_iff.mp h
      obtain ⟨pre, b', post, h1, h2, h3⟩ := ih hbs'
      exact ⟨b :: pre, b', post, by rw [h1]; rfl, h2, by rw [h3]; rfl⟩

theorem mergeInto_eq_none {a : MemoryBlock} {l : List MemoryBlock} :
    mergeInto a l = none ↔ ∀ b ∈ l, a.meets b = false := by
  induction l with
  | nil => simp [mergeInto]
  | cons b bs ih =>
    unfold mergeInto
    by_cases hb : a.meets b = true
    · simp [hb]
    · rw [if_neg hb, Option.map_eq_none_iff, ih]
      simp [Bool.eq_false_iff.mpr hb]

/-- everything a successful `malloc` does -/
theorem mallocArray_some {h h' : Heap} {size : UInt32} {p : Nat}
    (hm : mallocArray h size = some (p, h')) :
    ∃ h₀ pre b post, h.ensureInit = some h₀ ∧ h₀.freeBlocks = pre ++ b :: post ∧
      b.fits (alignSize size.toNat) = true ∧ p = b.start ∧
      h₀.allocatedBlocks.length ≠ allocatedTableLength ∧
      h' = { h₀ with
        freeBlocks := pre ++ b.carve (alignSize size.toNat) :: post
        allocatedBlocks := h₀.allocatedBlocks ++
          [⟨b.start, (b.carve (alignSize size.toNat)).start, alignSize size.toNat, true⟩] } := by
  unfold mallocArray at hm
  obtain ⟨h₀, hi, hm⟩ := Option.bind_eq_some_iff.mp hm
  obtain ⟨r, hf, hm⟩ := Option.bind_eq_some_iff.mp hm
  obtain ⟨pre, post, h1, h2, h3⟩ := firstFit_some hf
  by_cases hl : h₀.allocatedBlocks.length = allocatedTableLength
  · rw [if_pos hl] at hm
    cases hm
  · rw [if_neg hl] at hm
    cases hm
    exact ⟨h₀, pre, r.1, post, hi, h1, h3, rfl, hl, by rw [h2]⟩

/-- when `malloc` halts -/
theorem mallocArray_eq_none {h h₀ : Heap} (hi : h.ensureInit = some h₀) {size : UInt32} :
    mallocArray h size = none ↔
      (∀ b ∈ h₀.freeBlocks, b.fits (alignSize size.toNat) = false) ∨
        h₀.allocatedBlocks.length = allocatedTableLength := by
  rw [← firstFit_eq_none, mallocArray, hi, Option.bind_some]
  cases hf : firstFit (alignSize size.toNat) h₀.freeBlocks with
  | none => simp [hf]
  | some r =>
    by_cases hl : h₀.allocatedBlocks.length = allocatedTableLength
    · simp [hf, hl]
    · simp [hf, hl]

/-- everything a successful `free` does: the block is merged or appended -/
theorem freeArray_some {h h' : Heap} {p : Nat} (hf : freeArray h p = some h') :
    ∃ pre a post, h.allocatedBlocks = pre ++ a :: post ∧ a.isValid = true ∧ a.start = p ∧
      h'.allocatedBlocks = pre ++ { a with isValid := false } :: post ∧
      h'.mallocInitialized = h.mallocInitialized ∧
      ((∃ fpre b fpost, h.freeBlocks = fpre ++ b :: fpost ∧ a.meets b = true ∧
          h'.freeBlocks
            = fpre ++ { b with start := a.start, size := wrap32 (b.size + a.size) } :: fpost) ∨
        (h.freeBlocks.length ≠ tableLength ∧ h'.freeBlocks = h.freeBlocks ++ [a])) := by
  unfold freeArray at hf
  obtain ⟨r, ht, hf⟩ := Option.bind_eq_some_iff.mp hf
  obtain ⟨pre, post, h1, h2, h3, h4⟩ := takeAllocated_some ht
  refine ⟨pre, r.1, post, h1, h3, h4, ?_⟩
  cases hm : mergeInto r.1 h.freeBlocks with
  | some bs =>
    obtain ⟨fpre, b, fpost, g1, g2, g3⟩ := mergeInto_some hm
    rw [hm] at hf
    cases hf
    exact ⟨h2, rfl, Or.inl ⟨fpre, b, fpost, g1, g2, g3⟩⟩
  | none =>
    rw [hm] at hf
    simp only at hf
    by_cases hl : h.freeBlocks.length = tableLength
    · rw [if_pos hl] at hf
      cases hf
    · rw [if_neg hl] at hf
      cases hf
      exact ⟨h2, rfl, Or.inr ⟨hl, rfl⟩⟩

/-- when `free` halts -/
theorem freeArray_eq_none {h : Heap} {p : Nat} :
    freeArray h p = none ↔ ∀ a, h.allocatedBlocks.find? (fun b => b.isValid && b.start == p) = some a →
      (∀ b ∈ h.freeBlocks, a.meets b = false) ∧ h.freeBlocks.length = tableLength := by
  rw [← takeAllocated_fst, freeArray]
  cases ht : takeAllocated p h.allocatedBlocks with
  | none => simp
  | some r =>
    rw [Option.bind_some, Option.map_some]
    simp only [Option.some.injEq, forall_eq']
    rw [← mergeInto_eq_none]
    cases hm : mergeInto r.1 h.freeBlocks with
    | some bs => simp
    | none =>
      by_cases hl : h.freeBlocks.length = tableLength
      · simp [hl]
      · simp [hl]

end StarOS
