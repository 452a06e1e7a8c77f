import StarOS.Heap.Alloc
import StarOS.Lib.Run
import StarOS.Lib.Tiling

/-!
# The valid blocks of the heap tile it

`h.validBlocks` are the valid entries of the two tables together.  `BlocksTile l`: every block of
`l` ends where its size says, and the blocks tile the heap as spans (`Lib.Tiles`).  Three edits
keep it:

* `blocksTile_carve`   `malloc` cuts a free block in two;
* `blocksTile_merge`   `free` joins a block with the free block behind it;
* `BlocksTile.perm`    `free` moves a block from one table to the other.

Once the first `malloc` has set the tables up, every call that does not halt keeps the tiling
(`tiled_step`), so it holds along every run (`run_tiles_heap`).
-/

namespace StarOS
open Lib

def MemoryBlock.span (b : MemoryBlock) : Span := ⟨b.start, b.stop⟩

/-- the valid entries of both tables -/
def Heap.validBlocks (h : Heap) : List MemoryBlock :=
  (h.freeBlocks ++ h.allocatedBlocks).filter MemoryBlock.isValid

structure BlocksTile (l : List MemoryBlock) : Prop where
  stop_eq : ∀ b ∈ l, b.stop = b.start + b.size
  tiles : Tiles freeMemoryStart freeMemoryLength (l.map MemoryBlock.span)

/-- the heap is cut exactly into its valid blocks: each ends at `start + size` without leaving the
32-bit word, lies in the heap, two non-empty ones are disjoint, and the sizes add up -/
def Heap.TiledExactly (h : Heap) : Prop :=
  (∀ b ∈ h.validBlocks, b.start + b.size = b.stop ∧ b.stop < 2^32 ∧ freeMemoryStart ≤ b.start ∧
    b.stop ≤ freeMemoryStart + freeMemoryLength) ∧
  h.validBlocks.Pairwise (fun b c => 0 < b.size → 0 < c.size → b.stop ≤ c.start ∨ c.stop ≤ b.start) ∧
  (h.validBlocks.map MemoryBlock.size).sum = freeMemoryLength

/-! ## the edits -/

theorem BlocksTile.perm {l l' : List MemoryBlock} (h : BlocksTile l) (hp : l.Perm l') :
    BlocksTile l' where
  stop_eq := fun b hb => h.stop_eq b (hp.mem_iff.mpr hb)
  tiles := h.tiles.perm (hp.map MemoryBlock.span)

theorem BlocksTile.inside {l : List MemoryBlock} (h : BlocksTile l) {b : MemoryBlock} (hb : b ∈ l) :
    freeMemoryStart ≤ b.start ∧ b.stop ≤ freeMemoryStart + freeMemoryLength := by
  have hs := h.tiles.inside b.span (List.mem_map_of_mem hb)
  exact ⟨hs.1, hs.2.2⟩

theorem BlocksTile.stop_lt {l : List MemoryBlock} (h : BlocksTile l) {b : MemoryBlock} (hb : b ∈ l) :
    b.stop < 2^32 := by
  have hin := h.inside hb
  rw [freeMemoryStart_eq, freeMemoryLength_eq] at hin
  omega

theorem blocksTile_carve {b : MemoryBlock} {l : List MemoryBlock} {size : Nat}
    (h : BlocksTile (b :: l)) (hs : size ≤ b.size) :
    BlocksTile (⟨b.start, (b.carve size).start, size, true⟩ :: b.carve size :: l) := by
  have he := h.stop_eq b (List.mem_cons_self ..)
  have hlt := h.stop_lt (List.mem_cons_self ..)
  have hw : (b.carve size).start = b.start + size := wrap32_of_lt (by omega)
  refine ⟨?_, ?_⟩
  · intro c hc
    rcases List.mem_cons.mp hc with rfl | hc
    · exact hw
    rcases List.mem_cons.mp hc with rfl | hc
    · show b.stop = (b.carve size).start + (b.size - size)
      rw [hw]
      omega
    · exact h.stop_eq c (List.mem_cons_of_mem _ hc)
  · have ht := h.tiles
    show Tiles _ _ (⟨b.start, (b.carve size).start⟩ :: ⟨(b.carve size).start, b.stop⟩ ::
      l.map MemoryBlock.span)
    rw [hw]
    exact (tiles_split (by omega) (by omega)).mp ht

theorem blocksTile_merge {a b : MemoryBlock} {l : List MemoryBlock}
    (h : BlocksTile (a :: b :: l)) (hm : a.stop = b.start) :
    BlocksTile ({ b with start := a.start, size := wrap32 (b.size + a.size) } :: l) := by
  have ha := h.stop_eq a (List.mem_cons_self ..)
  have hb := h.stop_eq b (List.mem_cons_of_mem _ (List.mem_cons_self ..))
  have hlt := h.stop_lt (List.mem_cons_of_mem _ (List.mem_cons_self ..))
  have hw : wrap32 (b.size + a.size) = b.size + a.size := wrap32_of_lt (by omega)
  refine ⟨?_, ?_⟩
  · intro c hc
    rcases List.mem_cons.mp hc with rfl | hc
    · show b.stop = a.start + wrap32 (b.size + a.size)
      rw [hw]
      omega
    · exact h.stop_eq c (List.mem_cons_of_mem _ (List.mem_cons_of_mem _ hc))
  · have ht : Tiles _ _ (⟨a.start, a.stop⟩ :: ⟨b.start, b.stop⟩ :: l.map MemoryBlock.span) := h.tiles
    rw [← hm] at ht
    show Tiles _ _ (⟨a.start, b.stop⟩ :: l.map MemoryBlock.span)
    exact (tiles_split (by omega) (by omega)).mpr ht

theorem BlocksTile.exactly {h : Heap} (ht : BlocksTile h.validBlocks) : h.TiledExactly := by
  refine ⟨fun b hb => ?_, ?_, ?_⟩
  · exact ⟨(ht.stop_eq b hb).symm, ht.stop_lt hb, (ht.inside hb).1, (ht.inside hb).2⟩
  · have hp := List.pairwise_map.mp ht.tiles.apart
    refine hp.imp_of_mem (fun {b c} hb hc hbc hb0 hc0 => ?_)
    have h1 := ht.stop_eq b hb
    have h2 := ht.stop_eq c hc
    simp only [Span.Apart, MemoryBlock.span] at hbc
    omega
  · have hsum := ht.tiles.total
    rw [List.map_map] at hsum
    rw [← hsum]
    congr 1
    apply List.map_congr_left
    intro b hb
    have h1 := ht.stop_eq b hb
    show b.size = b.stop - b.start
    omega

/-! ## the steps -/

/-- what holds before and after the tables are set up -/
def Heap.Tiled (h : Heap) : Prop :=
  (h.mallocInitialized = true → BlocksTile h.validBlocks) ∧
  (h.mallocInitialized = false → h.freeBlocks = [] ∧ h.allocatedBlocks = [])

theorem tiled_boot (location : DataAddress) : (Heap.boot location).Tiled :=
  ⟨fun h => absurd h Bool.false_ne_true, fun _ => ⟨rfl, rfl⟩⟩

theorem tiled_ensureInit {h h₀ : Heap} (ht : h.Tiled) (hi : h.ensureInit = some h₀) :
    h₀.mallocInitialized = true ∧ BlocksTile h₀.validBlocks := by
  rcases ensureInit_cases hi with ⟨hm, rfl⟩ | ⟨hm, rfl⟩
  · exact ⟨hm, ht.1 hm⟩
  · obtain ⟨hf, _⟩ := ht.2 hm
    refine ⟨rfl, ?_⟩
    have hv : Heap.validBlocks { h with
        mallocInitialized := true
        freeBlocks := h.freeBlocks ++
          [⟨freeMemoryStart, freeMemoryStart + freeMemoryLength, freeMemoryLength, true⟩]
        allocatedBlocks := [] }
        = [⟨freeMemoryStart, freeMemoryStart + freeMemoryLength, freeMemoryLength, true⟩] := by
      simp [Heap.validBlocks, hf]
    rw [hv]
    refine ⟨fun b hb => ?_, tiles_single _ _⟩
    rw [List.mem_singleton.mp hb]

/-- a valid entry can be pulled to the front of the valid entries of a table -/
theorem filter_middle {x : MemoryBlock} (l l' : List MemoryBlock) (hx : x.isValid = true) :
    ((l ++ x :: l').filter MemoryBlock.isValid).Perm
      (x :: (l ++ l').filter MemoryBlock.isValid) := by
  have hmid : (l ++ x :: l').Perm (x :: (l ++ l')) := List.perm_middle
  have hp := hmid.filter MemoryBlock.isValid
  rwa [List.filter_cons_of_pos hx] at hp

theorem tiled_malloc {h h' : Heap} {size : UInt32} {p : Nat} (ht : h.Tiled)
    (hm : mallocArray h size = some (p, h')) :
    h'.mallocInitialized = true ∧ BlocksTile h'.validBlocks := by
  obtain ⟨h₀, pre, b, post, hi, hf, hfit, -, -, rfl⟩ := mallocArray_some hm
  obtain ⟨hinit, hb⟩ := tiled_ensureInit ht hi
  refine ⟨hinit, ?_⟩
  obtain ⟨hv, hs⟩ := Bool.and_eq_true_iff.mp hfit
  have hs' : alignSize size.toNat ≤ b.size := of_decide_eq_true hs
  have hold : h₀.validBlocks.Perm
      (b :: (pre ++ (post ++ h₀.allocatedBlocks)).filter MemoryBlock.isValid) := by
    rw [Heap.validBlocks, hf, List.append_assoc, List.cons_append]
    exact filter_middle _ _ hv
  -- the carved block and the new entry replace the block that fits
  refine (blocksTile_carve (hb.perm hold) hs').perm (List.Perm.symm ?_)
  show ((pre ++ b.carve (alignSize size.toNat) :: post ++ (h₀.allocatedBlocks ++ [_])).filter
    MemoryBlock.isValid).Perm _
  rw [← List.append_assoc]
  refine (filter_middle _ [] rfl).trans (List.Perm.cons _ ?_)
  rw [List.append_nil, List.append_assoc, List.cons_append]
  exact filter_middle _ _ hv

theorem tiled_free {h h' : Heap} {p : Nat} (hinit : h.mallocInitialized = true)
    (hb : BlocksTile h.validBlocks) (hf : freeArray h p = some h') :
    h'.mallocInitialized = true ∧ BlocksTile h'.validBlocks := by
  obtain ⟨pre, a, post, ha, hav, -, ha', hi', hcase⟩ := freeArray_some hf
  refine ⟨hi'.trans hinit, ?_⟩
  have hold : h.validBlocks.Perm
      (a :: (h.freeBlocks ++ (pre ++ post)).filter MemoryBlock.isValid) := by
    rw [Heap.validBlocks, ha, ← List.append_assoc, ← List.append_assoc]
    exact filter_middle _ _ hav
  have hdrop : (pre ++ { a with isValid := false } :: post).filter MemoryBlock.isValid
      = (pre ++ post).filter MemoryBlock.isValid := by
    rw [List.filter_append, List.filter_cons_of_neg (by simp), List.filter_append]
  rw [Heap.validBlocks, ha', List.filter_append, hdrop, ← List.filter_append]
  rcases hcase with ⟨fpre, b, fpost, hfree, hmeet, hfree'⟩ | ⟨-, hfree'⟩
  · obtain ⟨hbv, hmeet⟩ := Bool.and_eq_true_iff.mp hmeet
    have hmeet' : a.stop = b.start := of_decide_eq_true hmeet
    have hfirst : ∀ x : MemoryBlock, x.isValid = true →
        ((fpre ++ x :: fpost ++ (pre ++ post)).filter MemoryBlock.isValid).Perm
          (x :: (fpre ++ (fpost ++ (pre ++ post))).filter MemoryBlock.isValid) := by
      intro x hx
      rw [List.append_assoc, List.cons_append]
      exact filter_middle _ _ hx
    rw [hfree] at hold
    rw [hfree']
    exact (blocksTile_merge ((hb.perm hold).perm ((hfirst b hbv).cons a)) hmeet').perm
      (hfirst _ (by exact hbv)).symm
  · rw [hfree', List.append_assoc]
    exact (hb.perm hold).perm (filter_middle _ _ hav).symm

theorem tiled_step {h h' : Heap} {c : HeapCall} (ht : h.Tiled) (hs : h.Step c h') :
    h'.mallocInitialized = true ∧ BlocksTile h'.validBlocks := by
  cases c with
  | malloc size =>
    obtain ⟨r, hr, rfl⟩ := Option.map_eq_some_iff.mp hs
    exact tiled_malloc ht hr
  | free p =>
    -- before the tables are set up there is no block to free
    cases hm : h.mallocInitialized with
    | true => exact tiled_free hm (ht.1 hm) hs
    | false =>
      obtain ⟨pre, a, post, ha, -⟩ := freeArray_some hs
      rw [(ht.2 hm).2] at ha
      exact absurd ha (by simp)

theorem Heap.Tiled.of_init {h : Heap} (h1 : h.mallocInitialized = true)
    (h2 : BlocksTile h.validBlocks) : h.Tiled :=
  ⟨fun _ => h2, fun hf => absurd (h1.symm.trans hf) (by simp)⟩

theorem tiled_run {location : DataAddress} {cs : List HeapCall} {h : Heap}
    (hr : Path Heap.Step (Heap.boot location) cs h) : h.Tiled :=
  hr.inv (I := Heap.Tiled)
    (fun _ _ _ hs hst => Heap.Tiled.of_init (tiled_step hs hst).1 (tiled_step hs hst).2)
    (tiled_boot location)

/-- **After any calls of `malloc` and `free`, at least one and none of them halting, the heap is
cut exactly into its valid blocks.** -/
theorem run_tiles_heap (location : DataAddress) (cs : List HeapCall) (h : Heap) (hne : cs ≠ [])
    (hr : Path Heap.Step (Heap.boot location) cs h) : h.TiledExactly := by
  rcases List.eq_nil_or_concat cs with rfl | ⟨cs', c, rfl⟩
  · exact absurd rfl hne
  · rw [List.concat_eq_append] at hr
    obtain ⟨m, hm, hst⟩ := path_snoc.mp hr
    exact (tiled_step (tiled_run hm) hst).2.exactly

theorem run_tiles_heap_four : ∃ h, Path Heap.Step (Heap.boot ⟨dataMemoryStart, by decide⟩)
    [.malloc 5, .malloc 0xffffffff, .malloc 8, .free freeMemoryStart] h ∧ h.TiledExactly := by
  have hr : ∃ h, Path Heap.Step (Heap.boot ⟨dataMemoryStart, by decide⟩)
      [.malloc 5, .malloc 0xffffffff, .malloc 8, .free freeMemoryStart] h :=
    ⟨_, _, rfl, _, rfl, _, rfl, _, rfl, rfl⟩
  obtain ⟨h, hr⟩ := hr
  exact ⟨h, hr, run_tiles_heap _ _ h (by simp) hr⟩

/-- before the first call the tables are empty, and nothing adds up to the heap -/
theorem boot_not_tiled : ¬ ∀ (location : DataAddress) (cs : List HeapCall) (h : Heap),
    Path Heap.Step (Heap.boot location) cs h → h.TiledExactly := by
  intro hall
  obtain ⟨-, -, h⟩ := hall ⟨dataMemoryStart, by decide⟩ [] _ rfl
  exact absurd h (by decide)

end StarOS
