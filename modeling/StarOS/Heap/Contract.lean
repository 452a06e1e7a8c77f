import StarOS.Heap.Tiled

/-!
# What a call of `malloc` promises (`_malloc_array`, `_free_array`)

* `Promise`            the pointer is a multiple of 8, the recorded block covers the request, no live
                       allocation has this address, and a later `free` of it finds this block;
* `Ordered`            blocks start at multiples of 8, and the first free block ends where the heap ends;
* `fresh_iff`          the address is new exactly when no live block of size 0 is there;
* `Registers`          entry `n` is the first valid one at its address: it stays so until it is freed;
* `promise_iff`        the promise is kept exactly for sizes up to `0xfffffff8`, at a new address.
-/

namespace StarOS
open Lib

/-- what is promised when `malloc(size)` returns `p`; the new entry is `block`, number `n` -/
structure Promise (h : Heap) (size : UInt32) (p : Nat) (h' : Heap) (n : Nat) (block : MemoryBlock) :
    Prop where
  recorded : h'.allocatedBlocks.length = n + 1 ∧ h'.allocatedBlocks[n]? = some block ∧
    block.isValid = true ∧ block.start = p
  aligned : p % 8 = 0
  covers : size.toNat ≤ block.size ∧ block.stop = block.start + block.size
  fresh : ∀ a ∈ h.allocatedBlocks, a.isValid = true → a.start ≠ p
  /-- the first `free(p)` after it, whatever was called in between -/
  released : ∀ cs t, Path Heap.Step h' cs t → HeapCall.free p ∉ cs →
    takeAllocated p t.allocatedBlocks
      = some (block, t.allocatedBlocks.set n { block with isValid := false })

/-! ## sizes and addresses -/

theorem alignSize_mod (size : Nat) : alignSize size % 8 = 0 := by
  unfold alignSize wrap32
  split <;> omega

theorem le_alignSize {size : Nat} (h : size ≤ 0xfffffff8) : size ≤ alignSize size := by
  unfold alignSize wrap32
  split <;> omega

/-- the round-up of the largest sizes wraps to 0 -/
theorem alignSize_wraps {size : Nat} (h : 0xfffffff8 < size) (hlt : size < 2^32) : alignSize size = 0 := by
  unfold alignSize wrap32
  split <;> omega

theorem firstFit_fst (size : Nat) (l : List MemoryBlock) :
    (firstFit size l).map Prod.fst = l.find? (MemoryBlock.fits size) := by
  induction l with
  | nil => rfl
  | cons b bs ih =>
    unfold firstFit
    by_cases hb : b.fits size = true
    · rw [if_pos hb, List.find?_cons_of_pos hb]
      rfl
    · rw [if_neg hb, List.find?_cons_of_neg hb, ← ih, Option.map_map]
      rfl

/-- the block `malloc` carves is the first one that fits -/
theorem mallocArray_first {h h' : Heap} {size : UInt32} {p : Nat} (hm : mallocArray h size = some (p, h')) :
    ∃ h₀ b, h.ensureInit = some h₀ ∧ h₀.freeBlocks.find? (MemoryBlock.fits (alignSize size.toNat)) = some b ∧
      p = b.start := by
  unfold mallocArray at hm
  obtain ⟨h₀, hi, hm⟩ := Option.bind_eq_some_iff.mp hm
  obtain ⟨r, hf, hm⟩ := Option.bind_eq_some_iff.mp hm
  refine ⟨h₀, r.1, hi, ?_, ?_⟩
  · rw [← firstFit_fst, hf]
    rfl
  · by_cases hl : h₀.allocatedBlocks.length = allocatedTableLength
    · rw [if_pos hl] at hm
      cases hm
    · rw [if_neg hl] at hm
      cases hm
      rfl

/-- the end of the heap -/
def heapEnd : Nat := freeMemoryStart + freeMemoryLength

structure Ordered (h : Heap) : Prop where
  free : ∀ b ∈ h.freeBlocks, b.start % 8 = 0
  allocated : ∀ b ∈ h.allocatedBlocks, b.start % 8 = 0
  /-- the first entry of `Free_blocks` is never used up -/
  head : h.mallocInitialized = true → ∃ b bs, h.freeBlocks = b :: bs ∧ b.isValid = true ∧ b.stop = heapEnd

theorem ordered_boot (location : DataAddress) : Ordered (Heap.boot location) := by
  refine ⟨?_, ?_, ?_⟩
  · intro b hb
    cases hb
  · intro b hb
    cases hb
  · intro h
    cases h

theorem ordered_ensureInit {h h₀ : Heap} (ho : Ordered h) (ht : h.Tiled) (hi : h.ensureInit = some h₀) :
    Ordered h₀ := by
  rcases ensureInit_cases hi with ⟨-, rfl⟩ | ⟨hm, rfl⟩
  · exact ho
  · obtain ⟨hf, -⟩ := ht.2 hm
    refine ⟨?_, (fun b hb => by cases hb), fun _ => ⟨_, [], by rw [hf]; rfl, rfl, rfl⟩⟩
    intro b hb
    have hb : b ∈ h.freeBlocks ++ [_] := hb
    rw [hf, List.nil_append, List.mem_singleton] at hb
    rw [hb]
    rfl

/-- an edit of one block keeps the first block at the end of the heap -/
theorem head_edit {pre post : List MemoryBlock} {b b' : MemoryBlock}
    (h : ∃ c cs, pre ++ b :: post = c :: cs ∧ c.isValid = true ∧ c.stop = heapEnd)
    (hv : b'.isValid = b.isValid) (hs : b'.stop = b.stop) :
    ∃ c cs, pre ++ b' :: post = c :: cs ∧ c.isValid = true ∧ c.stop = heapEnd := by
  obtain ⟨c, cs, he, hcv, hcs⟩ := h
  cases pre with
  | nil =>
    obtain ⟨rfl, rfl⟩ := List.cons_eq_cons.mp he
    exact ⟨b', post, rfl, hv.trans hcv, hs.trans hcs⟩
  | cons d pre =>
    obtain ⟨rfl, -⟩ := List.cons_eq_cons.mp he
    exact ⟨d, pre ++ b' :: post, rfl, hcv, hcs⟩

theorem ordered_malloc {h h' : Heap} {size : UInt32} {p : Nat} (ho : Ordered h) (ht : h.Tiled)
    (hm : mallocArray h size = some (p, h')) : Ordered h' := by
  obtain ⟨h₀, pre, b, post, hi, hf, -, -, -, rfl⟩ := mallocArray_some hm
  have ho := ordered_ensureInit ho ht hi
  have hb : b.start % 8 = 0 := ho.free b (by rw [hf]; exact List.mem_append_right _ List.mem_cons_self)
  have halign := alignSize_mod size.toNat
  refine ⟨?_, ?_, fun hinit => ?_⟩
  · intro c hc
    rcases List.mem_append.mp hc with hc | hc
    · exact ho.free c (by rw [hf]; exact List.mem_append_left _ hc)
    · rcases List.mem_cons.mp hc with rfl | hc
      · show wrap32 (b.start + alignSize size.toNat) % 8 = 0
        rw [wrap32]
        omega
      · exact ho.free c (by rw [hf]; exact List.mem_append_right _ (List.mem_cons_of_mem _ hc))
  · intro c hc
    rcases List.mem_append.mp hc with hc | hc
    · exact ho.allocated c hc
    · rw [List.mem_singleton.mp hc]
      exact hb
  · have hhead := ho.head hinit
    rw [hf] at hhead
    exact head_edit hhead rfl rfl

theorem ordered_free {h h' : Heap} {p : Nat} (ho : Ordered h) (hf : freeArray h p = some h') :
    Ordered h' := by
  obtain ⟨pre, a, post, ha, -, -, ha', hinit, hcase⟩ := freeArray_some hf
  have hmem : ∀ c, c ∈ pre ∨ c = a ∨ c ∈ post → c ∈ h.allocatedBlocks := by
    intro c hc
    rw [ha, List.mem_append, List.mem_cons]
    exact hc
  have hstart := ho.allocated a (hmem a (.inr (.inl rfl)))
  have halloc : ∀ c ∈ h'.allocatedBlocks, c.start % 8 = 0 := by
    intro c hc
    rw [ha', List.mem_append, List.mem_cons] at hc
    rcases hc with hc | rfl | hc
    · exact ho.allocated c (hmem c (.inl hc))
    · exact hstart
    · exact ho.allocated c (hmem c (.inr (.inr hc)))
  rcases hcase with ⟨fpre, b, fpost, hfree, -, hfree'⟩ | ⟨-, hfree'⟩
  · refine ⟨?_, halloc, fun hi => ?_⟩
    · intro c hc
      rw [hfree', List.mem_append, List.mem_cons] at hc
      rcases hc with hc | rfl | hc
      · exact ho.free c (by rw [hfree]; exact List.mem_append_left _ hc)
      · exact hstart
      · exact ho.free c (by rw [hfree]; exact List.mem_append_right _ (List.mem_cons_of_mem _ hc))
    · have hhead := ho.head (hinit.symm.trans hi)
      rw [hfree] at hhead
      rw [hfree']
      exact head_edit hhead rfl rfl
  · refine ⟨?_, halloc, fun hi => ?_⟩
    · intro c hc
      rw [hfree', List.mem_append, List.mem_singleton] at hc
      rcases hc with hc | rfl
      · exact ho.free c hc
      · exact hstart
    · obtain ⟨b, bs, hb, hv, hs⟩ := ho.head (hinit.symm.trans hi)
      exact ⟨b, bs ++ [a], by rw [hfree', hb]; rfl, hv, hs⟩

theorem ordered_step {h h' : Heap} {c : HeapCall} (ho : Ordered h) (ht : h.Tiled) (hs : h.Step c h') :
    Ordered h' := by
  cases c with
  | malloc size =>
    obtain ⟨r, hr, rfl⟩ := Option.map_eq_some_iff.mp hs
    exact ordered_malloc ho ht hr
  | free p => exact ordered_free ho hs

theorem ordered_run {location : DataAddress} {cs : List HeapCall} {h : Heap}
    (hr : Path Heap.Step (Heap.boot location) cs h) : h.Tiled ∧ Ordered h :=
  hr.inv (I := fun h => h.Tiled ∧ Ordered h)
    (fun _ _ _ hi hs => ⟨Heap.Tiled.of_init (tiled_step hi.1 hs).1 (tiled_step hi.1 hs).2,
      ordered_step hi.2 hi.1 hs⟩)
    ⟨tiled_boot location, ordered_boot location⟩

/-! ## the address is new -/

/-- a valid allocated block at the address of the block `malloc` will carve is of size 0 -/
theorem size_of_shared {h : Heap} (hb : BlocksTile h.validBlocks) (ho : Ordered h)
    (hinit : h.mallocInitialized = true) {size : Nat} {b : MemoryBlock}
    (hfirst : h.freeBlocks.find? (MemoryBlock.fits size) = some b) {a : MemoryBlock}
    (ha : a ∈ h.allocatedBlocks) (hv : a.isValid = true) (hs : a.start = b.start) : a.size = 0 := by
  have hfit : b.fits size = true := List.find?_some hfirst
  obtain ⟨hbv, hbs⟩ := Bool.and_eq_true_iff.mp hfit
  have hle : size ≤ b.size := of_decide_eq_true hbs
  have hamem : a ∈ h.validBlocks := List.mem_filter.mpr ⟨List.mem_append_right _ ha, hv⟩
  have hbmem : b ∈ h.validBlocks :=
    List.mem_filter.mpr ⟨List.mem_append_left _ (List.mem_of_find?_eq_some hfirst), hbv⟩
  obtain ⟨hends, happart, -⟩ := hb.exactly
  have hpair : h.freeBlocks.filter MemoryBlock.isValid ++ h.allocatedBlocks.filter MemoryBlock.isValid
      = h.validBlocks := (List.filter_append ..).symm
  rw [← hpair] at happart
  have hba := (List.pairwise_append.mp happart).2.2 b
    (List.mem_filter.mpr ⟨List.mem_of_find?_eq_some hfirst, hbv⟩) a (List.mem_filter.mpr ⟨ha, hv⟩)
  have hae := hends a hamem
  have hbe := hends b hbmem
  by_contra hpos
  by_cases hb0 : 0 < b.size
  · have := hba hb0 (Nat.pos_of_ne_zero hpos)
    omega
  · -- nothing is asked for, so the first block is taken, and that is at the end of the heap
    obtain ⟨c, cs, hfree, hcv, hcs⟩ := ho.head hinit
    have hcfit : c.fits size = true := by
      rw [MemoryBlock.fits, hcv, Bool.true_and]
      exact decide_eq_true (by omega)
    rw [hfree, List.find?_cons_of_pos hcfit] at hfirst
    obtain rfl := Option.some.inj hfirst
    unfold heapEnd at hcs
    omega

theorem fresh_iff {h : Heap} (hb : BlocksTile h.validBlocks) (ho : Ordered h)
    (hinit : h.mallocInitialized = true) {size : Nat} {b : MemoryBlock}
    (hfirst : h.freeBlocks.find? (MemoryBlock.fits size) = some b) :
    (∀ a ∈ h.allocatedBlocks, a.isValid = true → a.start ≠ b.start) ↔
      ∀ a ∈ h.allocatedBlocks, a.isValid = true → a.size = 0 → a.start ≠ b.start :=
  ⟨fun hf a ha hv _ => hf a ha hv,
    fun hf a ha hv hs => hf a ha hv (size_of_shared hb ho hinit hfirst ha hv hs) hs⟩

/-! ## the block stays registered -/

/-- entry `n` of `Allocated_blocks` is `block`, and the first valid one at its address -/
structure Registers (n : Nat) (block : MemoryBlock) (h : Heap) : Prop where
  initialized : h.mallocInitialized = true
  entry : h.allocatedBlocks[n]? = some block
  valid : block.isValid = true
  first : ∀ i < n, ∀ a, h.allocatedBlocks[i]? = some a → a.isValid = true → a.start ≠ block.start

theorem takeAllocated_first {l : List MemoryBlock} {n : Nat} {block : MemoryBlock} (hn : l[n]? = some block)
    (hv : block.isValid = true)
    (hfirst : ∀ i < n, ∀ a, l[i]? = some a → a.isValid = true → a.start ≠ block.start) :
    takeAllocated block.start l = some (block, l.set n { block with isValid := false }) := by
  induction l generalizing n with
  | nil => cases hn
  | cons b bs ih =>
    cases n with
    | zero =>
      obtain rfl := Option.some.inj hn
      exact if_pos ⟨hv, rfl⟩
    | succ n =>
      have hb : ¬ (b.isValid = true ∧ b.start = block.start) := fun hb =>
        hfirst 0 (Nat.succ_pos n) b rfl hb.1 hb.2
      unfold takeAllocated
      rw [if_neg hb, ih hn fun i hi a => hfirst (i + 1) (Nat.succ_lt_succ hi) a]
      rfl

theorem getElem?_edit {l l' : List MemoryBlock} {a a' : MemoryBlock} {i : Nat} (h : i ≠ l.length) :
    (l ++ a' :: l')[i]? = (l ++ a :: l')[i]? := by
  by_cases hlt : i < l.length
  · rw [List.getElem?_append_left hlt, List.getElem?_append_left hlt]
  · rw [List.getElem?_append_right (by omega), List.getElem?_append_right (by omega)]
    obtain ⟨j, hj⟩ : ∃ j, i - l.length = j + 1 := ⟨i - l.length - 1, by omega⟩
    rw [hj]
    rfl

theorem getElem?_middle {l l' : List MemoryBlock} {a : MemoryBlock} :
    (l ++ a :: l')[l.length]? = some a := by
  rw [List.getElem?_append_right (Nat.le_refl _), Nat.sub_self]
  rfl

theorem registers_step {n : Nat} {block : MemoryBlock} {h h' : Heap} {c : HeapCall}
    (hr : Registers n block h) (hs : h.Step c h') (hc : c ≠ .free block.start) : Registers n block h' := by
  cases c with
  | malloc size =>
    obtain ⟨⟨p, h'⟩, hm, rfl⟩ := Option.map_eq_some_iff.mp hs
    obtain ⟨h₀, pre, b, post, hi, -, -, -, -, he⟩ := mallocArray_some hm
    have hsame : h₀ = h := by
      rcases ensureInit_cases hi with ⟨-, e⟩ | ⟨hm, -⟩
      · exact e
      · rw [hr.initialized] at hm
        cases hm
    subst hsame
    have hn := (List.getElem?_eq_some_iff.mp hr.entry).1
    rw [he]
    refine ⟨hr.initialized, ?_, hr.valid, fun i hi a ha => hr.first i hi a ?_⟩
    · rw [← hr.entry]
      exact List.getElem?_append_left hn
    · rw [← ha]
      exact (List.getElem?_append_left (by omega)).symm
  | free q =>
    have hq : q ≠ block.start := fun e => hc (congrArg HeapCall.free e)
    obtain ⟨pre, a, post, ha, hav, has, ha', hinit, -⟩ := freeArray_some (p := q) hs
    have hne : n ≠ pre.length := by
      intro e
      have hentry := hr.entry
      rw [ha, e, getElem?_middle] at hentry
      rw [Option.some.inj hentry] at has
      exact hq has.symm
    refine ⟨hinit.trans hr.initialized, ?_, hr.valid, fun i hi c hci hcv => ?_⟩
    · rw [ha', getElem?_edit (a := a) hne, ← ha]
      exact hr.entry
    · by_cases e : i = pre.length
      · rw [ha', e, getElem?_middle] at hci
        rw [← Option.some.inj hci] at hcv
        cases hcv
      · rw [ha', getElem?_edit (a := a) e, ← ha] at hci
        exact hr.first i hi c hci hcv

theorem registers_run {n : Nat} {block : MemoryBlock} {h t : Heap} {cs : List HeapCall}
    (hr : Registers n block h) (hp : Path Heap.Step h cs t) (hc : HeapCall.free block.start ∉ cs) :
    Registers n block t := by
  induction cs generalizing h with
  | nil => exact hp ▸ hr
  | cons c cs ih =>
    obtain ⟨m, hm, hp⟩ := hp
    have hne : c ≠ .free block.start := fun e => hc (e ▸ List.mem_cons_self)
    exact ih (registers_step hr hm hne) hp fun hmem => hc (List.mem_cons_of_mem _ hmem)

/-! ## the promise -/

/-- no live block of size 0 lies where the first block that fits starts -/
def NoEmptyBlockThere (h : Heap) (size : UInt32) : Prop :=
  ∀ b, h.freeBlocks.find? (MemoryBlock.fits (alignSize size.toNat)) = some b →
    ∀ a ∈ h.allocatedBlocks, a.isValid = true → a.size = 0 → a.start ≠ b.start

theorem promise_of_fresh {h h' : Heap} (ht : h.Tiled) (ho : Ordered h) {size : UInt32} {p : Nat}
    (hm : mallocArray h size = some (p, h')) (hsize : size.toNat ≤ 0xfffffff8)
    (hfresh : ∀ a ∈ h.allocatedBlocks, a.isValid = true → a.start ≠ p) :
    ∃ n block, Promise h size p h' n block := by
  obtain ⟨h₀, pre, b, post, hi, hf, hfit, rfl, -, he⟩ := mallocArray_some hm
  have ho₀ := ordered_ensureInit ho ht hi
  obtain ⟨hinit, hb⟩ := tiled_ensureInit ht hi
  obtain ⟨hbv, hbs⟩ := Bool.and_eq_true_iff.mp hfit
  have hle : alignSize size.toNat ≤ b.size := of_decide_eq_true hbs
  have hbmem : b ∈ h₀.freeBlocks := by
    rw [hf]
    exact List.mem_append_right _ List.mem_cons_self
  obtain ⟨hends, -, -⟩ := hb.exactly
  have hbe := hends b (List.mem_filter.mpr ⟨List.mem_append_left _ hbmem, hbv⟩)
  have hsame : h₀.allocatedBlocks = h.allocatedBlocks := by
    rcases ensureInit_cases hi with ⟨-, rfl⟩ | ⟨hm', rfl⟩
    · rfl
    · exact (ht.2 hm').2.symm
  have hstop : (b.carve (alignSize size.toNat)).start = b.start + alignSize size.toNat :=
    wrap32_of_lt (by omega)
  obtain ⟨block, hblock⟩ : ∃ block : MemoryBlock,
      block = ⟨b.start, (b.carve (alignSize size.toNat)).start, alignSize size.toNat, true⟩ := ⟨_, rfl⟩
  have hnew : h'.allocatedBlocks = h.allocatedBlocks ++ [block] := by
    rw [he, hblock, ← hsame]
  have hinit' : h'.mallocInitialized = true := by
    rw [he]
    exact hinit
  have hentry : h'.allocatedBlocks[h.allocatedBlocks.length]? = some block := by
    rw [hnew]
    exact getElem?_middle
  have hstart : block.start = b.start := by rw [hblock]
  have hvalid : block.isValid = true := by rw [hblock]
  have hregisters : Registers h.allocatedBlocks.length block h' := by
    refine ⟨hinit', hentry, hvalid, fun i hi a hai hav => ?_⟩
    rw [hnew, List.getElem?_append_left hi] at hai
    rw [hstart]
    exact hfresh a (List.mem_of_getElem? hai) hav
  refine ⟨h.allocatedBlocks.length, block, ⟨?_, hentry, hvalid, hstart⟩, ho₀.free b hbmem, ?_, hfresh,
    fun cs t hp hc => ?_⟩
  · rw [hnew, List.length_append]
    rfl
  · rw [hblock]
    exact ⟨le_alignSize hsize, hstop⟩
  · rw [← hstart] at hc ⊢
    have hreg := registers_run hregisters hp hc
    exact takeAllocated_first hreg.entry hreg.valid hreg.first

/-- **In every reachable state `malloc(size)` keeps its promise exactly when the size is at most
`0xfffffff8` and no live block of size 0 lies where the first block that fits starts.** -/
theorem promise_iff (location : DataAddress) (cs : List HeapCall) (h : Heap)
    (hr : Path Heap.Step (Heap.boot location) cs h) (size : UInt32) (p : Nat) (h' : Heap)
    (hm : mallocArray h size = some (p, h')) :
    (∃ n block, Promise h size p h' n block) ↔ size.toNat ≤ 0xfffffff8 ∧ NoEmptyBlockThere h size := by
  obtain ⟨ht, ho⟩ := ordered_run hr
  obtain ⟨h₀, b, hi, hfirst, hp⟩ := mallocArray_first hm
  obtain ⟨hinit, hb⟩ := tiled_ensureInit ht hi
  constructor
  · rintro ⟨n, block, hprom⟩
    refine ⟨?_, fun c hc a ha hv _ => ?_⟩
    · by_contra hbig
      obtain ⟨h₁, pre, c, post, -, -, -, -, -, rfl⟩ := mallocArray_some hm
      obtain ⟨⟨hlen, hentry, -⟩, -, ⟨hcov, -⟩, -, -⟩ := hprom
      rw [List.length_append, List.length_singleton] at hlen
      have e : n = h₁.allocatedBlocks.length := by omega
      rw [e, getElem?_middle] at hentry
      rw [← Option.some.inj hentry, alignSize_wraps (by omega) size.toNat_lt] at hcov
      have hcov : size.toNat ≤ 0 := hcov
      omega
    · rcases ensureInit_cases hi with ⟨-, rfl⟩ | ⟨hm', -⟩
      · obtain rfl := Option.some.inj (hc.symm.trans hfirst)
        exact hp ▸ hprom.fresh a ha hv
      · rw [(ht.2 hm').2] at ha
        cases ha
  · rintro ⟨hsize, hempty⟩
    refine promise_of_fresh ht ho hm hsize ?_
    rcases ensureInit_cases hi with ⟨-, rfl⟩ | ⟨hm', -⟩
    · rw [hp]
      exact (fresh_iff hb ho hinit hfirst).mpr (hempty b hfirst)
    · rw [(ht.2 hm').2]
      intro a ha
      cases ha

/-- sixteen bytes behind a block of eight -/
theorem promise_second : ∃ h h' n block, Path Heap.Step (Heap.boot ⟨dataMemoryStart, by decide⟩) [.malloc 5] h ∧
    Promise h 16 (freeMemoryStart + 8) h' n block := by
  have hr : ∃ h h', Path Heap.Step (Heap.boot ⟨dataMemoryStart, by decide⟩) [.malloc 5] h ∧
      mallocArray h 16 = some (freeMemoryStart + 8, h') ∧ ∀ a ∈ h.allocatedBlocks, a.size ≠ 0 :=
    ⟨_, _, ⟨_, rfl, rfl⟩, rfl, by decide⟩
  obtain ⟨h, h', hr, hm, hsize⟩ := hr
  obtain ⟨n, block, hp⟩ := (promise_iff _ _ h hr 16 _ h' hm).mpr
    ⟨by decide, fun _ _ a ha _ h0 => absurd h0 (hsize a ha)⟩
  exact ⟨h, h', n, block, hr, hp⟩

/-- the first `malloc(0xffffffff)` returns the start of the heap, with a block of 0 bytes -/
theorem largest_size_not_covered : ¬ ∀ (location : DataAddress) (cs : List HeapCall) (h : Heap),
    Path Heap.Step (Heap.boot location) cs h → ∀ (size : UInt32) (p : Nat) (h' : Heap),
      mallocArray h size = some (p, h') → ∃ n block, Promise h size p h' n block := by
  intro hall
  have hm : ∃ h', mallocArray (Heap.boot ⟨dataMemoryStart, by decide⟩) 0xffffffff = some (freeMemoryStart, h') ∧
      h'.allocatedBlocks = [⟨freeMemoryStart, freeMemoryStart, 0, true⟩] := ⟨_, rfl, rfl⟩
  obtain ⟨h', hm, hblocks⟩ := hm
  obtain ⟨n, block, hp⟩ := hall _ [] _ rfl 0xffffffff _ h' hm
  have hentry := hp.recorded.2.1
  rw [hblocks] at hentry
  have hblock := List.mem_singleton.mp (List.mem_of_getElem? hentry)
  have hcov := hp.covers.1
  rw [hblock] at hcov
  exact absurd hcov (by decide)

end StarOS
