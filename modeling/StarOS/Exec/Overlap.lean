import StarOS.Exec.Segments
import Mathlib.Data.Nat.Find

/-!
# Segments that share a page (`execv`, the loop over the program headers)

Every header maps a page of its own, also where an earlier header has mapped one at the same address.

* `OnePageEach g`      the segments lie in one page each, outside the stack and `Kernel_maps`, and no two
                       of them have a byte in common;
* `last_header`        of the segments of a page, the last one;
* `shared_byte`        it is the only one whose bytes are there, the rest of the page is 0;
* `segments_present_iff`   all segments are there exactly when the others have no byte but 0.
-/

namespace StarOS
open Lib Frames

/-- the address `v` belongs to the segment -/
def ProgramHeader.Covers (h : ProgramHeader) (v : Nat) : Prop := h.pVaddr ≤ v ∧ v < h.pVaddr + h.pMemsz

/-- the page of a segment that lies in one page -/
def ProgramHeader.vpage (h : ProgramHeader) : Nat := h.pVaddr / 4096

structure OnePageEach (g : File) : Prop where
  one : ∀ j < g.header.ePhnum, 0 < (g.phentry j).pMemsz →
    (g.phentry j).pVaddr % 4096 + (g.phentry j).pMemsz ≤ 4096
  outside : ∀ j < g.header.ePhnum, 0 < (g.phentry j).pMemsz →
    ¬ KernelPage (g.phentry j).vpage ∧ ¬ StackPage (g.phentry j).vpage
  disjoint : ∀ i < g.header.ePhnum, ∀ j < g.header.ePhnum, i ≠ j → ∀ v, (g.phentry i).Covers v →
    ¬ (g.phentry j).Covers v

/-- header `j` has bytes in page `p` -/
def File.Uses (g : File) (p j : Nat) : Prop := 0 < (g.phentry j).pMemsz ∧ (g.phentry j).vpage = p

instance (g : File) (p : Nat) : DecidablePred (g.Uses p) := fun _ => inferInstanceAs (Decidable (_ ∧ _))

/-- a segment of one page asks for that page only -/
theorem requestsFor_page {g : File} (ho : OnePageEach g) {j : Nat} (hj : j < g.header.ePhnum)
    (hs : (segment g j (g.phentry j)).2 = none) : ∀ r ∈ g.requestsFor j, g.Uses r.page j := by
  intro r hr
  obtain ⟨hv, -⟩ := g.phentry_lt j
  obtain ⟨k, hk, hp⟩ := requestsFor_touches hs hr
  have hone := ho.one j hj (by omega)
  refine ⟨by omega, ?_⟩
  rw [← hp, wrap32, ProgramHeader.vpage]
  omega

/-- of the headers with bytes in a page, the last one -/
theorem last_header {g : File} {p i : Nat} (hi : i < g.header.ePhnum) (hu : g.Uses p i) :
    ∃ m, i ≤ m ∧ m < g.header.ePhnum ∧ g.Uses p m ∧ ∀ j < g.header.ePhnum, m < j → ¬ g.Uses p j := by
  have hle : i ≤ g.header.ePhnum - 1 := by omega
  have hm := Nat.findGreatest_le (P := g.Uses p) (g.header.ePhnum - 1)
  refine ⟨Nat.findGreatest (g.Uses p) (g.header.ePhnum - 1), Nat.le_findGreatest hle hu, by omega,
    Nat.findGreatest_spec hle hu, fun j hj hlt => ?_⟩
  exact Nat.findGreatest_is_greatest hlt (by omega)

section
variable {g : File} (hg : Accepted g) (ho : OnePageEach g) {s : Loader} {a : Frames} {d : Nat}
  (h : Shape s a) (hd : a.At d .directory) (hF : Filled d (plan g).1 s a)
include hg ho h hd hF

/-- at the address of a byte of segment `i` stands that byte, if `i` is the last segment of the page;
else it is 0 -/
theorem shared_byte {i m k : Nat} (hm : m < g.header.ePhnum) (him : i ≤ m) (hk : k < (g.phentry i).pMemsz)
    (hu : g.Uses (g.phentry i).vpage m)
    (hlast : ∀ j < g.header.ePhnum, m < j → ¬ g.Uses (g.phentry i).vpage j) :
    s.paging.byteAt d (wrap32 ((g.phentry i).pVaddr + k))
      = some (if m = i then g.getD ((g.phentry i).pOffset + k) 0 else 0) := by
  have hi : i < g.header.ePhnum := by omega
  obtain ⟨hv, -⟩ := g.phentry_lt i
  have hone := ho.one i hi (by omega)
  have honem := ho.one m hm hu.1
  obtain ⟨hkernel, hstack⟩ := ho.outside i hi (by omega)
  have hnone := (segmentRequests_eq hg).2
  obtain ⟨data, hdata, hfirst⟩ := lastFor_first (hnone m hm) hu.1
  obtain ⟨hpos, hpage⟩ := hu
  have hother : ∀ j < g.header.ePhnum, m < j → ∀ q ∈ g.requestsFor j, q.page ≠ (g.phentry i).vpage :=
    fun j hj hmj q hq e => hlast j hj hmj (e ▸ requestsFor_page ho hj (hnone j hj) q hq)
  rw [show (g.phentry m).pVaddr / 4096 = (g.phentry i).vpage from hpage] at hfirst
  have hl := (lastFor_plan hg hkernel hstack).trans (lastFor_flatMap hm hfirst hother)
  unfold ProgramHeader.vpage at hpage hl
  have hw : wrap32 ((g.phentry i).pVaddr + k) = (g.phentry i).pVaddr + k := Nat.mod_eq_of_lt (by omega)
  have hp : ((g.phentry i).pVaddr + k) / 4096 = (g.phentry i).pVaddr / 4096 := by omega
  have hlen := File.slice_length hdata
  have hbytes := (File.slice_eq hdata).2
  have hcount : (g.phentry m).firstCount = (g.phentry m).pMemsz := by
    unfold ProgramHeader.firstCount
    omega
  rw [hcount] at hlen hbytes
  rw [hw, filled_byteAt h hd hF (by omega) (hp ▸ hl) rfl]
  show some (if _ then _ else _) = _
  by_cases e : m = i
  · subst e
    rw [if_pos rfl, if_neg (by omega), ← hbytes k hk]
    have e : ((g.phentry m).pVaddr + k) % 4096 - (g.phentry m).pVaddr % 4096 = k := by omega
    rw [e]
  · -- the two segments have no byte in common
    have hdis := ho.disjoint i hi m hm (Ne.symm e) ((g.phentry i).pVaddr + k) ⟨by omega, by omega⟩
    unfold ProgramHeader.Covers at hdis
    rw [if_neg e]
    by_cases hlo : ((g.phentry i).pVaddr + k) % 4096 < (g.phentry m).pVaddr % 4096
    · rw [if_pos hlo]
    · rw [if_neg hlo, List.getD_eq_getElem?_getD, List.getElem?_eq_none (by omega)]
      rfl

/-- a segment is there when it is the last one of its page, or has no byte but 0 -/
theorem delivered_iff_last {i : Nat} (hi : i < g.header.ePhnum) : Delivered g (g.phentry i) s.paging d ↔
    ∀ j < g.header.ePhnum, i < j → g.Uses (g.phentry i).vpage j →
      ∀ k < (g.phentry i).pMemsz, g.getD ((g.phentry i).pOffset + k) 0 = 0 := by
  constructor
  · intro hdel j hj hij hu k hk
    obtain ⟨m, hjm, hm, hum, hlast⟩ := last_header hj hu
    have hbyte := shared_byte hg ho h hd hF hm (by omega) hk hum hlast
    rw [if_neg (by omega), hdel k hk] at hbyte
    exact Option.some.inj hbyte
  · intro hzero k hk
    obtain ⟨m, him, hm, hum, hlast⟩ := last_header hi (p := (g.phentry i).vpage) ⟨by omega, rfl⟩
    rw [shared_byte hg ho h hd hF hm him hk hum hlast]
    by_cases e : m = i
    · rw [if_pos e]
    · rw [if_neg e, hzero m hm (by omega) hum k hk]

end

/-- **The segments of one page each are all in the memory of the process exactly when in every page
the segments before the last one have no byte but 0.**  The bytes are those of the buffer `g`. -/
theorem segments_present_iff (mem : Mem) (files : List File) (hfiles : ∀ f ∈ files, Accepted f) (g : File)
    (hg : Accepted g) (ho : OnePageEach g) (s : Loader)
    (hs : Loader.run (files ++ [g]) (Loader.boot mem) = .ok ⟨⟩ s) (d : Nat)
    (hd : s.directories.getLast? = some d) :
    (∀ i < g.header.ePhnum, Delivered g (g.phentry i) s.paging d) ↔
      ∀ i j, i < j → j < g.header.ePhnum → 0 < (g.phentry j).pMemsz →
        (g.phentry i).vpage = (g.phentry j).vpage →
        ∀ k < (g.phentry i).pMemsz, g.getD ((g.phentry i).pOffset + k) 0 = 0 := by
  obtain ⟨a, hshape, hat, hF⟩ := run_directory mem hfiles hg hs hd
  constructor
  · intro hall i j hij hj hpos hpage
    have hdel := hall i (by omega)
    exact (delivered_iff_last hg ho hshape hat hF (by omega)).mp hdel j hj hij ⟨hpos, hpage.symm⟩
  · intro hzero i hi
    refine (delivered_iff_last hg ho hshape hat hF hi).mpr fun j hj hij hu => ?_
    exact hzero i j hij hj hu.1 hu.2.symm

/-- two segments of four bytes in the page at `0x8048000` -/
def twoSegments : File :=
  [0x7f, 0x45, 0x4c, 0x46, 1, 1, 1, 0, 0, 0, 0, 0, 0, 0, 0, 0, 2, 0, 3, 0, 1, 0, 0, 0,
    0x74, 0x80, 0x04, 0x08, 52, 0, 0, 0, 0, 0, 0, 0, 0, 0, 0, 0, 52, 0, 32, 0, 2, 0, 40, 0, 0, 0, 0, 0,
    1, 0, 0, 0, 116, 0, 0, 0, 0x74, 0x80, 0x04, 0x08, 0x74, 0x80, 0x04, 0x08, 4, 0, 0, 0, 4, 0, 0, 0,
    5, 0, 0, 0, 0, 0x10, 0, 0,
    1, 0, 0, 0, 120, 0, 0, 0, 0x78, 0x80, 0x04, 0x08, 0x78, 0x80, 0x04, 0x08, 4, 0, 0, 0, 4, 0, 0, 0,
    6, 0, 0, 0, 0, 0x10, 0, 0, 0xeb, 0xfe, 0x90, 0x90, 1, 2, 3, 4]

/-- two segments of four bytes, the second one behind the first -/
theorem onePageEach_two {g : File} {v : Nat} (hn : g.header.ePhnum = 2) (hv0 : (g.phentry 0).pVaddr = 0x8048074)
    (hm0 : (g.phentry 0).pMemsz = 4) (hv1 : (g.phentry 1).pVaddr = v) (hm1 : (g.phentry 1).pMemsz = 4)
    (hlo : 0x8048078 ≤ v) (hhi : v < 0x9000000) (hpage : v % 4096 + 4 ≤ 4096) : OnePageEach g := by
  have hcases : ∀ j < g.header.ePhnum, j = 0 ∨ j = 1 := by
    intro j hj
    omega
  refine ⟨fun j hj _ => ?_, fun j hj _ => ?_, fun i hi j hj hne w hiw hjw => ?_⟩
  · rcases hcases j hj with rfl | rfl
    · rw [hv0, hm0]
      decide
    · rw [hv1, hm1]
      exact hpage
  · rcases hcases j hj with rfl | rfl
    · rw [ProgramHeader.vpage, hv0, kernelPage_iff, StackPage]
      omega
    · rw [ProgramHeader.vpage, hv1, kernelPage_iff, StackPage]
      omega
  · unfold ProgramHeader.Covers at hiw hjw
    rcases hcases i hi with rfl | rfl <;> rcases hcases j hj with rfl | rfl <;> omega

/-- the second segment in the next page -/
def twoPages : File := twoSegments.set 93 0x90

/-- each of the two has its page for itself -/
theorem segments_present_two : ∃ s d,
    Loader.run ([] ++ [twoPages]) (Loader.boot fun _ => 0) = .ok ⟨⟩ s ∧ twoPages.header.ePhnum = 2 ∧
      ∀ i < 2, Delivered twoPages (twoPages.phentry i) s.paging d := by
  have hg : Accepted twoPages := by
    rw [accepted_iff]
    exact ⟨by decide +kernel, by decide +kernel, by decide +kernel⟩
  have hn : twoPages.header.ePhnum = 2 := by decide +kernel
  have hv0 : (twoPages.phentry 0).pVaddr = 0x8048074 := by decide +kernel
  have hv1 : (twoPages.phentry 1).pVaddr = 0x8049078 := by decide +kernel
  have ho : OnePageEach twoPages := onePageEach_two hn hv0 (by decide +kernel) hv1 (by decide +kernel) (by decide)
    (by decide) (by decide)
  have hlen : (segmentRequests twoPages).length = 2 := by decide +kernel
  obtain ⟨s, d, hs, hd⟩ := run_single hg (by omega)
  have hpresent := segments_present_iff (fun _ => 0) [] (List.forall_mem_nil Accepted) twoPages hg ho s hs d hd
  rw [hn] at hpresent
  refine ⟨s, d, hs, hn, hpresent.mpr fun i j hij hj _ hpage => ?_⟩
  obtain rfl : j = 1 := by omega
  obtain rfl : i = 0 := by omega
  rw [ProgramHeader.vpage, ProgramHeader.vpage, hv0, hv1] at hpage
  cases hpage

/-- the second segment takes the page of the first -/
theorem twoSegments_not_present : ¬ ∀ (mem : Mem) (files : List File), (∀ f ∈ files, Accepted f) →
    ∀ g : File, Accepted g → OnePageEach g → ∀ s : Loader,
      Loader.run (files ++ [g]) (Loader.boot mem) = .ok ⟨⟩ s → ∀ d, s.directories.getLast? = some d →
      ∀ i < g.header.ePhnum, Delivered g (g.phentry i) s.paging d := by
  intro hall
  have hg : Accepted twoSegments := by
    rw [accepted_iff]
    exact ⟨by decide +kernel, by decide +kernel, by decide +kernel⟩
  have hn : twoSegments.header.ePhnum = 2 := by decide +kernel
  have hv0 : (twoSegments.phentry 0).pVaddr = 0x8048074 := by decide +kernel
  have hm0 : (twoSegments.phentry 0).pMemsz = 4 := by decide +kernel
  have hv1 : (twoSegments.phentry 1).pVaddr = 0x8048078 := by decide +kernel
  have hm1 : (twoSegments.phentry 1).pMemsz = 4 := by decide +kernel
  have hoff : (twoSegments.phentry 0).pOffset = 116 := by decide +kernel
  have hlen : (segmentRequests twoSegments).length = 2 := by decide +kernel
  have ho := onePageEach_two hn hv0 hm0 hv1 hm1 (by decide) (by decide) (by decide)
  obtain ⟨s, d, hs, hd⟩ := run_single hg (by omega)
  obtain ⟨a, hshape, hat, hF⟩ := run_directory (fun _ => 0) (List.forall_mem_nil Accepted) hg hs hd
  have hdel := hall (fun _ => 0) [] (List.forall_mem_nil Accepted) twoSegments hg ho s hs d hd 0 (by omega)
  have hzero := (delivered_iff_last hg ho hshape hat hF (by omega)).mp hdel 1 (by omega) (by decide)
    ⟨by omega, by rw [ProgramHeader.vpage, ProgramHeader.vpage, hv0, hv1]⟩ 0 (by omega)
  rw [hoff] at hzero
  have hbyte : twoSegments.getD (116 + 0) 0 = 0xeb := by decide +kernel
  rw [hbyte] at hzero
  cases hzero

end StarOS
