import StarOS.Exec.Content

/-!
# The segments of a program in memory (`execv`, the loop over the program headers)

What a process finds at the addresses of its segments.

* `segmentRequests_eq` the requests of a file, header by header;
* `Touches h p`        a byte of the segment `h` lies in page `p`;
* `filled_byteAt`      at an address stands the byte of the last request for its page;
* `Alone g i`          the segment `i` has its pages for itself;
* `segment_delivered_iff`   then the first page is right, the second one holds the bytes at `PAGE_SIZE`
                       of the buffer, and a third one does not exist.
-/

namespace StarOS
open Lib Frames

/-! ## the requests of a header -/

/-- `program_header_table[j]` -/
def File.phentry (g : File) (j : Nat) : ProgramHeader := g.programHeader g.header.ePhoff j

/-- what is asked for a header, when the file gets through -/
def File.requestsFor (g : File) (j : Nat) : List Request := (segment g j (g.phentry j)).1

theorem File.phentry_lt (g : File) (j : Nat) : (g.phentry j).pVaddr < 2^32 ∧ (g.phentry j).pMemsz < 2^32 :=
  ⟨read32_lt _ _, read32_lt _ _⟩

theorem segments_requests (g : File) (i n : Nat) (h : (segments g i n).2 = none) :
    (segments g i n).1 = (List.range' i n).flatMap g.requestsFor ∧
      ∀ j, i ≤ j → j < i + n → (segment g j (g.phentry j)).2 = none := by
  induction n generalizing i with
  | zero => exact ⟨rfl, fun j h1 h2 => by omega⟩
  | succ n ih =>
    unfold segments at h ⊢
    by_cases hlt : g.length < g.header.ePhoff + ProgramHeader.bytes * (i + 1)
    · rw [if_pos hlt] at h
      cases h
    rw [if_neg hlt] at h ⊢
    obtain ⟨h1, h2, h3⟩ := Plan.andThen_accepted h
    obtain ⟨hreq, hnone⟩ := ih (i + 1) h2
    refine ⟨?_, fun j hj hjn => ?_⟩
    · rw [h3, hreq, List.range'_succ, List.flatMap_cons]
      rfl
    · by_cases e : j = i
      · rw [e]
        exact h1
      · exact hnone j (by omega) (by omega)

/-- the requests of a file, header by header -/
theorem segmentRequests_eq {g : File} (h : Accepted g) :
    segmentRequests g = (List.range g.header.ePhnum).flatMap g.requestsFor ∧
      ∀ j < g.header.ePhnum, (segment g j (g.phentry j)).2 = none := by
  obtain ⟨-, -, hs⟩ := (accepted_iff g).mp h
  obtain ⟨hreq, hnone⟩ := segments_requests g 0 _ hs
  refine ⟨?_, fun j hj => hnone j (Nat.zero_le j) (by omega)⟩
  rw [List.range_eq_range']
  exact hreq

/-- how many bytes of a segment go into its first page -/
def ProgramHeader.firstCount (h : ProgramHeader) : Nat := min h.pMemsz (4096 - h.pVaddr % 4096)

theorem File.slice_eq {f : File} {src n : Nat} {data : List UInt8} (h : f.slice src n = some data) :
    src + n ≤ f.length ∧ ∀ k < n, data.getD k 0 = f.getD (src + k) 0 := by
  unfold File.slice at h
  by_cases hn : src + n ≤ f.length
  · rw [if_pos hn] at h
    refine ⟨hn, fun k hk => ?_⟩
    rw [← Option.some.inj h, List.getD_eq_getElem?_getD, List.getD_eq_getElem?_getD, List.getElem?_take,
      if_pos hk, List.getElem?_drop]
  · rw [if_neg hn] at h
    cases h

/-- a header that is let through: nothing, or the first page and the following ones -/
theorem segment_accepted {g : File} {j : Nat} {h : ProgramHeader} (hs : (segment g j h).2 = none) :
    h.pFilesz = h.pMemsz ∧ (h.pMemsz = 0 ∧ (segment g j h).1 = [] ∨
      0 < h.pMemsz ∧ ∃ data, g.slice h.pOffset h.firstCount = some data ∧
        (nextPages g (wrap32 (h.pVaddr - h.pVaddr % 4096 + 4096)) 4096
          ((h.pMemsz - h.firstCount) % 4096) ((h.pMemsz - h.firstCount) / 4096)).2 = none ∧
        (segment g j h).1 = .firstPage (h.pVaddr - h.pVaddr % 4096) (h.pVaddr % 4096) data ::
          (nextPages g (wrap32 (h.pVaddr - h.pVaddr % 4096 + 4096)) 4096
            ((h.pMemsz - h.firstCount) % 4096) ((h.pMemsz - h.firstCount) / 4096)).1) := by
  unfold segment at hs ⊢
  by_cases h1 : h.pFilesz ≠ h.pMemsz
  · rw [if_pos h1] at hs
    cases hs
  rw [if_neg h1] at hs ⊢
  refine ⟨not_not.mp h1, ?_⟩
  by_cases h2 : h.pMemsz = 0
  · rw [if_pos h2]
    exact .inl ⟨h2, rfl⟩
  rw [if_neg h2] at hs ⊢
  right
  refine ⟨Nat.pos_of_ne_zero h2, ?_⟩
  dsimp only at hs ⊢
  rw [pageSize_eq] at hs ⊢
  -- the sum does not wrap, since nothing is copied past the page
  have hcount : ∀ count, (if wrap32 (h.pMemsz + h.pVaddr % 4096) < 4096 then h.pMemsz
      else 4096 - h.pVaddr % 4096) = count → ¬ 4096 < h.pVaddr % 4096 + count → count = h.firstCount := by
    intro count hc hle
    have hmod : h.pVaddr % 4096 < 4096 := Nat.mod_lt _ (by decide)
    unfold ProgramHeader.firstCount
    rw [wrap32] at hc
    by_cases hw : (h.pMemsz + h.pVaddr % 4096) % 2^32 < 4096
    · rw [if_pos hw] at hc
      omega
    · rw [if_neg hw] at hc
      have := Nat.mod_le (h.pMemsz + h.pVaddr % 4096) (2^32)
      omega
  generalize hc : (if wrap32 (h.pMemsz + h.pVaddr % 4096) < 4096 then h.pMemsz
    else 4096 - h.pVaddr % 4096) = count at hs ⊢
  cases hsl : g.slice h.pOffset count with
  | none =>
    rw [hsl] at hs
    cases hs
  | some data =>
    rw [hsl] at hs
    dsimp only at hs ⊢
    by_cases h3 : 4096 < h.pVaddr % 4096 + count
    · rw [if_pos h3] at hs
      cases hs
    rw [if_neg h3] at hs ⊢
    obtain rfl := hcount count hc h3
    obtain ⟨-, h4, h5⟩ := Plan.andThen_accepted hs
    exact ⟨data, hsl, h4, h5⟩

theorem nextPages_page (g : File) (vaddr src rest n : Nat) :
    ∀ r ∈ (nextPages g vaddr src rest n).1, r.page = vaddr / 4096 := by
  induction n generalizing src with
  | zero =>
    unfold nextPages
    by_cases h0 : rest = 0
    · simp [h0]
    · rw [if_neg h0]
      cases g.slice src rest with
      | none => simp
      | some data =>
        intro r hr
        rw [List.mem_singleton.mp hr]
        rfl
  | succ n ih =>
    unfold nextPages
    cases g.slice src pageSize with
    | none => simp
    | some data =>
      refine Plan.andThen_forall ?_ (ih _)
      intro r hr
      rw [List.mem_singleton.mp hr]
      rfl

/-- at most one page follows: its bytes come from `src` -/
theorem nextPages_one {g : File} {vaddr src m : Nat} (hm : 0 < m) (hle : m ≤ 4096)
    (h : (nextPages g vaddr src (m % 4096) (m / 4096)).2 = none) :
    ∃ data, g.slice src m = some data ∧
      (nextPages g vaddr src (m % 4096) (m / 4096)).1 = [.nextPage vaddr data] := by
  by_cases hlt : m < 4096
  · rw [Nat.mod_eq_of_lt hlt, Nat.div_eq_of_lt hlt] at h ⊢
    unfold nextPages at h ⊢
    rw [if_neg (by omega)] at h ⊢
    cases hs : g.slice src m with
    | none =>
      rw [hs] at h
      cases h
    | some data => exact ⟨data, rfl, rfl⟩
  · have e : m = 4096 := by omega
    subst e
    have e1 : 4096 % 4096 = 0 := rfl
    have e2 : 4096 / 4096 = 0 + 1 := rfl
    rw [e1, e2] at h ⊢
    unfold nextPages at h ⊢
    rw [pageSize_eq] at h ⊢
    cases hs : g.slice src 4096 with
    | none =>
      rw [hs] at h
      cases h
    | some data => exact ⟨data, rfl, rfl⟩

theorem nextPages_none (g : File) (vaddr src : Nat) : nextPages g vaddr src (0 % 4096) (0 / 4096) = ([], none) := rfl

/-! ## pages -/

/-- a byte of the segment lies in page `p` -/
def ProgramHeader.Touches (h : ProgramHeader) (p : Nat) : Prop :=
  ∃ k < h.pMemsz, wrap32 (h.pVaddr + k) / 4096 = p

/-- the pages of the stack -/
def StackPage (p : Nat) : Prop := 0xfe00 ≤ p ∧ p < 0xff00

/-- what is asked for a header lies in the pages of its segment -/
theorem requestsFor_touches {g : File} {j : Nat} (hs : (segment g j (g.phentry j)).2 = none) {r : Request}
    (hr : r ∈ g.requestsFor j) : (g.phentry j).Touches r.page := by
  obtain ⟨hv, -⟩ := g.phentry_lt j
  obtain ⟨-, ⟨-, h0⟩ | ⟨hpos, data, hdata, hnext, heq⟩⟩ := segment_accepted hs
  · rw [File.requestsFor, h0] at hr
    cases hr
  · rw [File.requestsFor, heq] at hr
    rcases List.mem_cons.mp hr with rfl | hr
    · refine ⟨0, hpos, ?_⟩
      show wrap32 ((g.phentry j).pVaddr + 0) / 4096
        = ((g.phentry j).pVaddr - (g.phentry j).pVaddr % 4096) / 4096
      rw [wrap32]
      omega
    · have hpage := nextPages_page g _ _ _ _ r hr
      by_cases hm : (g.phentry j).pMemsz - (g.phentry j).firstCount = 0
      · rw [hm, nextPages_none] at hr
        cases hr
      · unfold ProgramHeader.firstCount at hm
        refine ⟨4096 - (g.phentry j).pVaddr % 4096, by omega, ?_⟩
        rw [hpage]
        have e : (g.phentry j).pVaddr + (4096 - (g.phentry j).pVaddr % 4096)
            = (g.phentry j).pVaddr - (g.phentry j).pVaddr % 4096 + 4096 := by omega
        rw [e]

theorem lastFor_none_flatMap {n p : Nat} {F : Nat → List Request}
    (h : ∀ j < n, ∀ r ∈ F j, r.page ≠ p) : lastFor ((List.range n).flatMap F) p = none := by
  rw [lastFor_eq_none]
  intro r hr
  obtain ⟨j, hj, hr⟩ := List.mem_flatMap.mp hr
  exact h j (List.mem_range.mp hj) r hr

/-- the last header that asks for the page decides -/
theorem lastFor_flatMap {n p i : Nat} {F : Nat → List Request} {r : Request} (hi : i < n)
    (hr : lastFor (F i) p = some r) (h : ∀ j < n, i < j → ∀ q ∈ F j, q.page ≠ p) :
    lastFor ((List.range n).flatMap F) p = some r := by
  induction n with
  | zero => cases hi
  | succ n ih =>
    rw [List.range_succ, List.flatMap_append, lastFor_append, List.flatMap_singleton]
    by_cases e : i = n
    · rw [← e, hr]
      rfl
    · rw [lastFor_eq_none.mpr (h n (Nat.lt_succ_self n) (by omega)), Option.none_or]
      exact ih (by omega) fun j hj => h j (by omega)

/-- outside the stack and `Kernel_maps` a page is asked for by the headers only -/
theorem lastFor_plan {g : File} (hg : Accepted g) {p : Nat} (hk : ¬ KernelPage p) (hstack : ¬ StackPage p) :
    lastFor (plan g).1 p = lastFor ((List.range g.header.ePhnum).flatMap g.requestsFor) p := by
  have hkernel : lastFor kernelRequests p = none := by
    rw [lastFor_eq_none]
    intro r hr e
    obtain ⟨q, hq, rfl⟩ := (mem_kernelRequests r).mp hr
    have e : 4096 * q / 4096 = p := e
    rw [Nat.mul_div_cancel_left q (by decide)] at e
    exact hk (e ▸ hq)
  have hst : lastFor stackRequests p = none := by
    rw [lastFor_eq_none]
    intro r hr e
    obtain ⟨i, hi, rfl⟩ := List.mem_map.mp hr
    have hi := List.mem_range.mp hi
    rw [userStackSize, pageSize_eq] at hi
    have e : (0x0ff00000 - 4096 - 4096 * i) / 4096 = p := e
    exact hstack ⟨by omega, by omega⟩
  rw [plan_accepted hg, lastFor_append, lastFor_append, hkernel, hst]
  show (lastFor (segmentRequests g) p) = _
  rw [(segmentRequests_eq hg).1]

theorem lastFor_cons (r : Request) (l : List Request) (p : Nat) :
    lastFor (r :: l) p = (lastFor l p).or (if r.page = p then some r else none) := by
  rw [← List.singleton_append, lastFor_append, lastFor_singleton]

section
variable {g : File} {j : Nat} (hs : (segment g j (g.phentry j)).2 = none) (hpos : 0 < (g.phentry j).pMemsz)
include hs hpos

/-- the first page of a segment -/
theorem lastFor_first :
    ∃ data, g.slice (g.phentry j).pOffset (g.phentry j).firstCount = some data ∧
      lastFor (g.requestsFor j) ((g.phentry j).pVaddr / 4096) = some (.firstPage
        ((g.phentry j).pVaddr - (g.phentry j).pVaddr % 4096) ((g.phentry j).pVaddr % 4096) data) := by
  obtain ⟨-, ⟨h0, -⟩ | ⟨-, data, hdata, hnext, heq⟩⟩ := segment_accepted hs
  · omega
  refine ⟨data, hdata, ?_⟩
  have hrest : lastFor (nextPages g (wrap32 ((g.phentry j).pVaddr - (g.phentry j).pVaddr % 4096 + 4096)) 4096
      (((g.phentry j).pMemsz - (g.phentry j).firstCount) % 4096)
      (((g.phentry j).pMemsz - (g.phentry j).firstCount) / 4096)).1 ((g.phentry j).pVaddr / 4096) = none := by
    rw [lastFor_eq_none]
    intro r hr
    rw [nextPages_page g _ _ _ _ r hr, wrap32]
    omega
  rw [File.requestsFor, heq, lastFor_cons, hrest, Option.none_or, if_pos]
  show ((g.phentry j).pVaddr - (g.phentry j).pVaddr % 4096) / 4096 = _
  omega

/-- the second page, when it is the last one: the bytes are those at `PAGE_SIZE` of the file -/
theorem lastFor_second (hv : (g.phentry j).pVaddr + (g.phentry j).pMemsz ≤ 2^32)
    (hlt : (g.phentry j).firstCount < (g.phentry j).pMemsz)
    (hle : (g.phentry j).pMemsz - (g.phentry j).firstCount ≤ 4096) :
    ∃ vaddr data, g.slice 4096 ((g.phentry j).pMemsz - (g.phentry j).firstCount) = some data ∧
      lastFor (g.requestsFor j) ((g.phentry j).pVaddr / 4096 + 1) = some (.nextPage vaddr data) := by
  obtain ⟨-, ⟨h0, -⟩ | ⟨-, _, -, hnext, heq⟩⟩ := segment_accepted hs
  · omega
  obtain ⟨data, hdata, hone⟩ := nextPages_one (by omega) hle hnext
  refine ⟨wrap32 ((g.phentry j).pVaddr - (g.phentry j).pVaddr % 4096 + 4096), data, hdata, ?_⟩
  unfold ProgramHeader.firstCount at hlt
  rw [File.requestsFor, heq, hone, lastFor_cons, lastFor_singleton, if_pos]
  · rfl
  · show wrap32 _ / 4096 = _
    rw [wrap32]
    omega

/-- there is no third page -/
theorem lastFor_third {p : Nat} (hp : (g.phentry j).pVaddr / 4096 + 1 < p) :
    ∀ r ∈ g.requestsFor j, r.page ≠ p := by
  obtain ⟨-, ⟨h0, -⟩ | ⟨-, _, -, -, heq⟩⟩ := segment_accepted hs
  · omega
  intro r hr
  rw [File.requestsFor, heq] at hr
  rcases List.mem_cons.mp hr with rfl | hr
  · show ((g.phentry j).pVaddr - (g.phentry j).pVaddr % 4096) / 4096 ≠ p
    omega
  · rw [nextPages_page g _ _ _ _ r hr, wrap32]
    omega

end

/-! ## bytes -/

/-- the byte at the address `v` of the page directory `d` -/
def Paging.byteAt (s : Paging) (d v : Nat) : Option UInt8 := (checkAddressMapping s v d).map s.mem

section
variable {s : Loader} {a : Frames} {d : Nat} {l : List Request} (h : Shape s a) (hd : a.At d .directory)
  (hF : Filled d l s a) {v : Nat} (hv : v < 2^32)
include h hd hF hv

/-- at an address stands the byte of the last request for its page -/
theorem filled_byteAt {r : Request} (hr : lastFor l (v / 4096) = some r) (hn : r.newPages = 1) :
    s.paging.byteAt d v = some (r.byte (v % 4096)) := by
  obtain ⟨y, hy, -, hbytes⟩ := hF.page _ r hr hn
  rw [Paging.byteAt, h.walk hd hv, hy, ← hbytes _ (Nat.mod_lt v (by decide))]
  rfl

theorem filled_noByte (hr : lastFor l (v / 4096) = none) : s.paging.byteAt d v = none := by
  rw [Paging.byteAt, h.walk hd hv, hF.absent _ hr]
  rfl

end

/-- every byte of a segment is at its address -/
def Delivered (f : File) (h : ProgramHeader) (s : Paging) (d : Nat) : Prop :=
  ∀ k < h.pMemsz, s.byteAt d (wrap32 (h.pVaddr + k)) = some (f.getD (h.pOffset + k) 0)

/-- no other header touches the pages of header `i`, and they lie outside the stack and `Kernel_maps` -/
structure Alone (g : File) (i : Nat) : Prop where
  apart : ∀ j < g.header.ePhnum, j ≠ i → ∀ p, (g.phentry i).Touches p → ¬ (g.phentry j).Touches p
  outside : ∀ p, (g.phentry i).Touches p → ¬ KernelPage p ∧ ¬ StackPage p

/-- such a segment ends before the end of the address space: the next page would be the first one of
the kernel -/
theorem end_le {h : ProgramHeader} (hout : ∀ p, h.Touches p → ¬ KernelPage p ∧ ¬ StackPage p)
    (hv : h.pVaddr < 2^32) : h.pVaddr + h.pMemsz ≤ 2^32 := by
  by_contra hn
  have htouch : h.Touches 0 := by
    refine ⟨2^32 - h.pVaddr, by omega, ?_⟩
    rw [wrap32]
    omega
  exact (hout 0 htouch).1 ((kernelPage_iff 0).mpr (by omega))

/-- what is asked for at the pages of such a segment -/
theorem alone_lastFor {g : File} (hg : Accepted g) {i : Nat} (hi : i < g.header.ePhnum) (ha : Alone g i)
    {p : Nat} (hp : (g.phentry i).Touches p) :
    lastFor (plan g).1 p = lastFor (g.requestsFor i) p := by
  obtain ⟨hk, hst⟩ := ha.outside p hp
  have hnone := (segmentRequests_eq hg).2
  have hothers : ∀ j < g.header.ePhnum, j ≠ i → ∀ r ∈ g.requestsFor j, r.page ≠ p := by
    intro j hj hne r hr e
    exact ha.apart j hj hne p hp (e ▸ requestsFor_touches (hnone j hj) hr)
  rw [lastFor_plan hg hk hst]
  cases hl : lastFor (g.requestsFor i) p with
  | none =>
    refine lastFor_none_flatMap fun j hj => ?_
    by_cases e : j = i
    · rw [e]
      exact lastFor_eq_none.mp hl
    · exact hothers j hj e
  | some r => exact lastFor_flatMap hi hl fun j hj hij => hothers j hj (by omega)

section
variable {g : File} {i : Nat} (hg : Accepted g) (hi : i < g.header.ePhnum)
  (hpos : 0 < (g.phentry i).pMemsz) (ha : Alone g i)
  {s : Loader} {a : Frames} {d : Nat} (h : Shape s a) (hd : a.At d .directory) (hF : Filled d (plan g).1 s a)
include hg hi hpos ha h hd hF

/-- the bytes of the first page are right -/
theorem alone_first {k : Nat} (hk : k < (g.phentry i).firstCount) :
    s.paging.byteAt d (wrap32 ((g.phentry i).pVaddr + k)) = some (g.getD ((g.phentry i).pOffset + k) 0) := by
  have hend := end_le ha.outside (g.phentry_lt i).1
  obtain ⟨data, hdata, hlast⟩ := lastFor_first ((segmentRequests_eq hg).2 i hi) hpos
  have hbyte := (File.slice_eq hdata).2 k hk
  unfold ProgramHeader.firstCount at hk
  have hw : wrap32 ((g.phentry i).pVaddr + k) = (g.phentry i).pVaddr + k := Nat.mod_eq_of_lt (by omega)
  have hp : ((g.phentry i).pVaddr + k) / 4096 = (g.phentry i).pVaddr / 4096 := by omega
  have hl := alone_lastFor hg hi ha ⟨k, by omega, rfl⟩
  rw [hw, hp, hlast] at hl
  rw [hw, filled_byteAt h hd hF (by omega) (hp ▸ hl) rfl, ← hbyte]
  show some (if _ then _ else _) = _
  rw [if_neg (by omega)]
  have e : ((g.phentry i).pVaddr + k) % 4096 - (g.phentry i).pVaddr % 4096 = k := by omega
  rw [e]

/-- the second page, when it is the last one, holds the bytes at `PAGE_SIZE` of the file -/
theorem alone_second {t : Nat} (ht : (g.phentry i).firstCount + t < (g.phentry i).pMemsz)
    (hle : (g.phentry i).pMemsz - (g.phentry i).firstCount ≤ 4096) :
    s.paging.byteAt d (wrap32 ((g.phentry i).pVaddr + ((g.phentry i).firstCount + t)))
      = some (g.getD (4096 + t) 0) := by
  have hend := end_le ha.outside (g.phentry_lt i).1
  obtain ⟨vaddr, data, hdata, hlast⟩ := lastFor_second ((segmentRequests_eq hg).2 i hi) hpos hend
    (by omega) hle
  have hbyte := (File.slice_eq hdata).2 t (by omega)
  have hl := alone_lastFor hg hi ha ⟨(g.phentry i).firstCount + t, ht, rfl⟩
  unfold ProgramHeader.firstCount at *
  have hw : wrap32 ((g.phentry i).pVaddr + (min (g.phentry i).pMemsz (4096 - (g.phentry i).pVaddr % 4096) + t))
      = (g.phentry i).pVaddr + (min (g.phentry i).pMemsz (4096 - (g.phentry i).pVaddr % 4096) + t) :=
    Nat.mod_eq_of_lt (by omega)
  rw [hw] at hl ⊢
  have hp : ((g.phentry i).pVaddr + (min (g.phentry i).pMemsz (4096 - (g.phentry i).pVaddr % 4096) + t)) / 4096
      = (g.phentry i).pVaddr / 4096 + 1 := by omega
  rw [hp, hlast] at hl
  rw [filled_byteAt h hd hF (by omega) (hp ▸ hl) rfl, ← hbyte]
  show some (data.getD _ 0) = _
  have e : ((g.phentry i).pVaddr + (min (g.phentry i).pMemsz (4096 - (g.phentry i).pVaddr % 4096) + t)) % 4096
      = t := by omega
  rw [e]

/-- a third page is not mapped -/
theorem alone_third {k : Nat} (hk : (g.phentry i).firstCount + 4096 ≤ k) (hlt : k < (g.phentry i).pMemsz) :
    s.paging.byteAt d (wrap32 ((g.phentry i).pVaddr + k)) = none := by
  have hend := end_le ha.outside (g.phentry_lt i).1
  have hl := alone_lastFor hg hi ha ⟨k, hlt, rfl⟩
  unfold ProgramHeader.firstCount at hk
  have hw : wrap32 ((g.phentry i).pVaddr + k) = (g.phentry i).pVaddr + k := Nat.mod_eq_of_lt (by omega)
  rw [hw] at hl ⊢
  refine filled_noByte h hd hF (by omega) ?_
  rw [hl, lastFor_eq_none]
  exact lastFor_third ((segmentRequests_eq hg).2 i hi) hpos (by omega)

/-- a segment that has its pages for itself -/
theorem alone_delivered : Delivered g (g.phentry i) s.paging d ↔
    (g.phentry i).pVaddr % 4096 + (g.phentry i).pMemsz ≤ 8192 ∧
      ∀ t, (g.phentry i).firstCount + t < (g.phentry i).pMemsz →
        g.getD (4096 + t) 0 = g.getD ((g.phentry i).pOffset + ((g.phentry i).firstCount + t)) 0 := by
  have hfirst : (g.phentry i).firstCount
      = min (g.phentry i).pMemsz (4096 - (g.phentry i).pVaddr % 4096) := rfl
  constructor
  · intro hdel
    have hle : (g.phentry i).pVaddr % 4096 + (g.phentry i).pMemsz ≤ 8192 := by
      by_contra hn
      have hlt : 8192 - (g.phentry i).pVaddr % 4096 < (g.phentry i).pMemsz := by omega
      have hnone := alone_third hg hi hpos ha h hd hF (by omega) hlt
      cases (hdel _ hlt).symm.trans hnone
    refine ⟨hle, fun t ht => ?_⟩
    have hsecond := alone_second hg hi hpos ha h hd hF ht (by omega)
    exact Option.some.inj (hsecond.symm.trans (hdel _ ht))
  · rintro ⟨hle, heq⟩ k hk
    by_cases hlt : k < (g.phentry i).firstCount
    · exact alone_first hg hi hpos ha h hd hF hlt
    · have e : k = (g.phentry i).firstCount + (k - (g.phentry i).firstCount) := by omega
      rw [e] at hk ⊢
      rw [alone_second hg hi hpos ha h hd hF hk (by omega), heq _ hk]

end

/-! ## the last file of a run -/

/-- the directory of the last `execv`, and what it shows -/
theorem run_directory (mem : Mem) {files : List File} (hfiles : ∀ f ∈ files, Accepted f) {g : File}
    (hg : Accepted g) {s : Loader} (hs : Loader.run (files ++ [g]) (Loader.boot mem) = .ok ⟨⟩ s) {d : Nat}
    (hd : s.directories.getLast? = some d) :
    ∃ a, Shape s a ∧ a.At d .directory ∧ Filled d (plan g).1 s a := by
  obtain ⟨a, d', s₀, hshape, -, -, hdirs, hF⟩ := run_last mem hfiles hg hs
  obtain ⟨rfl, hmem⟩ := last_directory hshape hdirs hd
  exact ⟨a, hshape, (hshape.ok.processes d' hmem).1, hF⟩

theorem delivered_append {f : File} (heap : File) {h : ProgramHeader} {s : Paging} {d : Nat}
    (hin : h.pOffset + h.pMemsz ≤ f.length) : Delivered (f ++ heap) h s d ↔ Delivered f h s d := by
  have hbyte : ∀ k < h.pMemsz, (f ++ heap).getD (h.pOffset + k) 0 = f.getD (h.pOffset + k) 0 := by
    intro k hk
    rw [List.getD_eq_getElem?_getD, List.getElem?_append_left (by omega), List.getD_eq_getElem?_getD]
  constructor
  · intro hdel k hk
    rw [hdel k hk, hbyte k hk]
  · intro hdel k hk
    rw [hdel k hk, hbyte k hk]

/-- **A segment of `f` that has its pages for itself is in the memory of the process exactly when it ends
in its second page at the latest and the bytes it needs there are those at `PAGE_SIZE` of the buffer.**
`heap` is what follows the file in memory. -/
theorem segment_delivered_iff (mem : Mem) (files : List File) (hfiles : ∀ f ∈ files, Accepted f)
    (f heap : File) (hg : Accepted (f ++ heap)) (i : Nat) (hi : i < (f ++ heap).header.ePhnum)
    (hpos : 0 < ((f ++ heap).phentry i).pMemsz)
    (hin : ((f ++ heap).phentry i).pOffset + ((f ++ heap).phentry i).pMemsz ≤ f.length)
    (ha : Alone (f ++ heap) i) (s : Loader)
    (hs : Loader.run (files ++ [f ++ heap]) (Loader.boot mem) = .ok ⟨⟩ s) (d : Nat)
    (hd : s.directories.getLast? = some d) :
    Delivered f ((f ++ heap).phentry i) s.paging d ↔
      ((f ++ heap).phentry i).pVaddr % 4096 + ((f ++ heap).phentry i).pMemsz ≤ 8192 ∧
        ∀ t, ((f ++ heap).phentry i).firstCount + t < ((f ++ heap).phentry i).pMemsz →
          (f ++ heap).getD (4096 + t) 0
            = (f ++ heap).getD (((f ++ heap).phentry i).pOffset + (((f ++ heap).phentry i).firstCount + t)) 0 := by
  obtain ⟨a, hshape, hat, hF⟩ := run_directory mem hfiles hg hs hd
  rw [← delivered_append heap hin]
  exact alone_delivered hg hi hpos ha hshape hat hF

/-- with one header only -/
theorem alone_single {g : File} (hn : g.header.ePhnum = 1)
    (hout : ∀ p, (g.phentry 0).Touches p → ¬ KernelPage p ∧ ¬ StackPage p) : Alone g 0 :=
  ⟨fun j hj hne => by omega, hout⟩

theorem run_single {g : File} (hg : Accepted g) (hn : (segmentRequests g).length ≤ 2) :
    ∃ s d, Loader.run ([] ++ [g]) (Loader.boot fun _ => 0) = .ok ⟨⟩ s ∧ s.directories.getLast? = some d := by
  have hle := framesOf_le g
  obtain ⟨s, hs⟩ := run_completes (fun _ => 0) (accepted_snoc (List.forall_mem_nil Accepted) hg) (by
    rw [framesNeeded, List.nil_append, List.map_singleton, List.sum_singleton]
    show 254 + framesOf g ≤ 26619
    omega)
  obtain ⟨a, d, s₀, -, -, -, hdirs, -⟩ := run_last (fun _ => 0) (List.forall_mem_nil Accepted) hg hs
  exact ⟨s, d, hs, by rw [hdirs, List.getLast?_concat]⟩

/-- eight bytes loaded at `0x8048ffc`, over the end of a page -/
def crossing : File :=
  [0x7f, 0x45, 0x4c, 0x46, 1, 1, 1, 0, 0, 0, 0, 0, 0, 0, 0, 0, 2, 0, 3, 0, 1, 0, 0, 0,
    0xfc, 0x8f, 0x04, 0x08, 52, 0, 0, 0, 0, 0, 0, 0, 0, 0, 0, 0, 52, 0, 32, 0, 1, 0, 40, 0, 0, 0, 0, 0,
    1, 0, 0, 0, 84, 0, 0, 0, 0xfc, 0x8f, 0x04, 0x08, 0xfc, 0x8f, 0x04, 0x08, 8, 0, 0, 0, 8, 0, 0, 0,
    5, 0, 0, 0, 0, 0x10, 0, 0, 0x90, 0x90, 0x90, 0x90, 0x90, 0x90, 0xeb, 0xfe]

/-- the same eight bytes in a file where they lie over the end of a page as well -/
def straddling : File :=
  crossing.take 56 ++ [0xfc, 0x0f, 0, 0] ++ (crossing.drop 60).take 24 ++ List.replicate 4008 0 ++ crossing.drop 84

/-- four bytes in the first page and four in the second -/
theorem segment_delivered_straddling : ∃ s d,
    Loader.run ([] ++ [straddling ++ []]) (Loader.boot fun _ => 0) = .ok ⟨⟩ s ∧
      Delivered straddling (straddling.phentry 0) s.paging d := by
  obtain ⟨g, hgdef⟩ : ∃ g, g = straddling := ⟨_, rfl⟩
  have hg : Accepted g := by
    rw [hgdef, accepted_iff]
    exact ⟨by decide +kernel, by decide +kernel, by decide +kernel⟩
  have hn : g.header.ePhnum = 1 := by rw [hgdef]; decide +kernel
  have hv : (g.phentry 0).pVaddr = 0x8048ffc := by rw [hgdef]; decide +kernel
  have hm : (g.phentry 0).pMemsz = 8 := by rw [hgdef]; decide +kernel
  have hoff : (g.phentry 0).pOffset = 4092 := by rw [hgdef]; decide +kernel
  have hlen : g.length = 4100 := by rw [hgdef]; decide +kernel
  have hrequests : (segmentRequests g).length = 2 := by rw [hgdef]; decide +kernel
  have halone : Alone g 0 := by
    refine alone_single hn fun p ⟨k, hk, hp⟩ => ?_
    rw [hm] at hk
    rw [hv, wrap32] at hp
    rw [kernelPage_iff, StackPage]
    omega
  rw [← hgdef, List.append_nil]
  obtain ⟨s, d, hs, hd⟩ := run_single hg (by omega)
  have hdel := segment_delivered_iff (fun _ => 0) [] (List.forall_mem_nil Accepted) g []
  rw [List.append_nil] at hdel
  refine ⟨s, d, hs, (hdel hg 0 (by omega) (by omega) (by omega) halone s hs d hd).mpr
    ⟨by rw [hv, hm]; decide, fun t _ => ?_⟩⟩
  -- the second page of the segment is the second page of the file
  have hfirst : (g.phentry 0).firstCount = 4 := by
    rw [ProgramHeader.firstCount, hm, hv]
    rfl
  rw [hfirst, hoff, ← Nat.add_assoc]

/-- the four bytes in the second page come from behind the file -/
theorem crossing_not_delivered : ¬ ∀ (mem : Mem) (files : List File), (∀ f ∈ files, Accepted f) →
    ∀ (f heap : File), Accepted (f ++ heap) → ∀ i < (f ++ heap).header.ePhnum,
      0 < ((f ++ heap).phentry i).pMemsz →
      ((f ++ heap).phentry i).pOffset + ((f ++ heap).phentry i).pMemsz ≤ f.length →
      Alone (f ++ heap) i → ∀ s : Loader,
      Loader.run (files ++ [f ++ heap]) (Loader.boot mem) = .ok ⟨⟩ s → ∀ d,
      s.directories.getLast? = some d → Delivered f ((f ++ heap).phentry i) s.paging d := by
  intro hall
  obtain ⟨g, hgdef⟩ : ∃ g, g = crossing ++ List.replicate 4096 0 := ⟨_, rfl⟩
  have hg : Accepted g := by
    rw [hgdef, accepted_iff]
    exact ⟨by decide +kernel, by decide +kernel, by decide +kernel⟩
  have hn : g.header.ePhnum = 1 := by rw [hgdef]; decide +kernel
  have hv : (g.phentry 0).pVaddr = 0x8048ffc := by rw [hgdef]; decide +kernel
  have hm : (g.phentry 0).pMemsz = 8 := by rw [hgdef]; decide +kernel
  have hoff : (g.phentry 0).pOffset = 84 := by rw [hgdef]; decide +kernel
  have hlen : (segmentRequests g).length = 2 := by rw [hgdef]; decide +kernel
  have hbytes : g.getD 4096 0 = 0 ∧ g.getD 88 0 = 0x90 := by rw [hgdef]; decide +kernel
  have halone : Alone g 0 := by
    refine alone_single hn fun p ⟨k, hk, hp⟩ => ?_
    rw [hm] at hk
    rw [hv, wrap32] at hp
    rw [kernelPage_iff, StackPage]
    omega
  obtain ⟨s, d, hs, hd⟩ := run_single hg (by omega)
  obtain ⟨a, hshape, hat, hF⟩ := run_directory (fun _ => 0) (List.forall_mem_nil Accepted) hg hs hd
  have hdel := hall (fun _ => 0) [] (List.forall_mem_nil Accepted) crossing (List.replicate 4096 0) (hgdef ▸ hg) 0
    (by rw [← hgdef, hn]; decide) (by rw [← hgdef, hm]; decide)
    (by rw [← hgdef, hm, hoff]; decide) (hgdef ▸ halone) s (by rw [← hgdef]; exact hs) d hd
  rw [← delivered_append (List.replicate 4096 0) (by rw [← hgdef, hm, hoff]; decide), ← hgdef] at hdel
  have hbyte := ((alone_delivered hg (by rw [hn]; decide) (by rw [hm]; decide) halone hshape hat hF).mp hdel).2
    0 (by rw [ProgramHeader.firstCount, hm, hv]; decide)
  rw [ProgramHeader.firstCount, hm, hv, hoff] at hbyte
  have hbyte : g.getD 4096 0 = g.getD 88 0 := hbyte
  rw [hbytes.1, hbytes.2] at hbyte
  cases hbyte

end StarOS
