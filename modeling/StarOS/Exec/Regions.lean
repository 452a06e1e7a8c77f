import StarOS.Exec.Segments

/-!
# The kernel and the stack in the directory of a process (`execv`, `add_kernel_mappings`)

* `SelfMapped a`       the kernel's directory maps pages to themselves, one test page apart;
* `kernel_mapped`      it maps every page of `Kernel_maps`;
* `StackOwn s d`       the pages of the stack have frames of their own in the directory `d`: no other page
                       outside `Kernel_maps` of any directory is mapped to one of them;
* `regions_mapped`     both hold after any calls of `execv`, whatever the segments were.
-/

namespace StarOS
open Lib Frames

namespace Frames

/-! ## the kernel's directory -/

/-- the test page of `ksetup_kernel_paging` -/
def testPage : Nat := Loader.notUsedMemoryStart / 4096

theorem testPage_eq : testPage = 0x20200 := rfl

/-- every page of the kernel's directory is mapped to itself, the test page to the one after it -/
def SelfMapped (a : Frames) : Prop :=
  ∀ p x, a.map kernelDirectory p = some x → x = 4096 * p ∨ p = testPage ∧ x = 4096 * (testPage + 1)

theorem selfMapped_point {a : Frames} {d p x : Nat} (h : SelfMapped a)
    (hx : d ≠ kernelDirectory ∨ x = 4096 * p ∨ p = testPage ∧ x = 4096 * (testPage + 1)) :
    SelfMapped (a.point d p x) := by
  intro q y hy
  rw [map_point] at hy
  by_cases e : kernelDirectory = d ∧ q = p
  · rw [if_pos e] at hy
    obtain ⟨rfl, rfl⟩ := e
    rw [← Option.some.inj hy]
    exact hx.resolve_left fun hne => hne rfl
  · rw [if_neg e] at hy
    exact h q y hy

theorem keeps_touch (i : Nat) : Keeps SelfMapped (touch i) := by
  intro a h
  unfold touch
  split
  · exact h
  · split
    · refine selfMapped_point h (.inr (.inl ?_))
      rw [frameAt_eq]
      omega
    · exact h

theorem keeps_alloc (u : Use) : Keeps SelfMapped (alloc u) :=
  .get fun _ => (keeps_touch _).bind fun _ _ h => h

theorem keeps_ensureTable (d j : Nat) : Keeps SelfMapped (ensureTable d j) := by
  refine .get fun a => ?_
  split
  · exact .pure _
  · exact (keeps_alloc _).bind fun _ => .pure _

theorem keeps_mapPage {d p x : Nat}
    (hx : d ≠ kernelDirectory ∨ x = 4096 * p ∨ p = testPage ∧ x = 4096 * (testPage + 1)) :
    Keeps SelfMapped (mapPage d p x) :=
  (keeps_ensureTable d _).bind fun _ _ h => selfMapped_point h hx

theorem keeps_mapNewPage {d p : Nat} (hd : d ≠ kernelDirectory) : Keeps SelfMapped (mapNewPage d p) :=
  (keeps_alloc _).bind fun _ => keeps_mapPage (.inl hd)

theorem keeps_serve {d : Nat} (hd : d ≠ kernelDirectory) (r : Request) : Keeps SelfMapped (serve d r) := by
  cases r with
  | firstPage vpage offset data => exact keeps_mapNewPage hd
  | nextPage vaddr data => exact keeps_mapNewPage hd
  | stackPage vaddr => exact keeps_mapNewPage hd
  | kernelPage vaddr physical => exact keeps_mapPage (.inl hd)

/-- so does setting up the kernel's directory -/
theorem keeps_kernelRequest {r : Request} (hr : r ∈ kernelRequests) :
    Keeps SelfMapped (serve kernelDirectory r) := by
  obtain ⟨p, -, rfl⟩ := (mem_kernelRequests r).mp hr
  refine keeps_mapPage (.inr (.inl ?_))
  rw [pageSize_eq]
  omega

/-- the kernel's directory shows the pages of `Kernel_maps` -/
structure KernelShown (a : Frames) : Prop where
  self : SelfMapped a
  mapped : ∀ p, KernelPage p → a.map kernelDirectory p ≠ none

theorem KernelShown.map {a : Frames} (h : KernelShown a) {p : Nat} (hp : KernelPage p) :
    a.map kernelDirectory p = some (4096 * p) := by
  obtain ⟨x, hx⟩ := Option.ne_none_iff_exists'.mp (h.mapped p hp)
  rcases h.self p x hx with rfl | ⟨e, -⟩
  · exact hx
  · rw [e, testPage_eq, kernelPage_iff] at hp
    omega

theorem kernelShown_ksetup {a : Frames} (h : ksetupKernelPaging boot = .ok ⟨⟩ a) : KernelShown a := by
  unfold ksetupKernelPaging at h
  rw [bind_ok alloc_first] at h
  obtain ⟨_, b, hb, h⟩ := of_bind h
  obtain ⟨_, c, hc, h⟩ := of_bind h
  injection h with _ e
  subst e
  obtain ⟨htakes, hmapped⟩ := kernelMaps_ends.of_ok hb
  have hserved := (serve_ends (ready_first.next htakes fun _ => rfl) proper_test).of_ok hc
  have hboot : SelfMapped (boot.push .directory) := by
    intro p x hx
    cases hx
  have hself : SelfMapped b := (Keeps.forM fun r hr => keeps_kernelRequest hr).of_ok hboot hb
  have htest : Keeps SelfMapped (serve kernelDirectory testRequest) :=
    keeps_mapPage (.inr (.inr ⟨rfl, rfl⟩))
  have hselfc : SelfMapped c := htest.of_ok hself hc
  refine ⟨hselfc, fun p hp => ?_⟩
  have hr := hmapped _ ((mem_kernelRequests _).mpr ⟨p, hp, rfl⟩)
  have e : (Request.kernelPage (pageSize * p) (pageSize * p)).page = p :=
    Nat.mul_div_cancel_left p (by decide)
  rw [e] at hr
  exact hserved.takes.grows.defined _ _ hr

theorem kernelShown_load {a b : Frames} {f : File} (h : a.Ok) (he : a.isPagingEnabled = true)
    (hf : Accepted f) (hk : KernelShown a) (hb : load f a = .ok ⟨⟩ b) : KernelShown b := by
  have hl := (load_ends h he hf).of_ok hb
  refine ⟨?_, fun p hp => hl.grows.defined _ _ (hk.mapped p hp)⟩
  obtain ⟨d, c, hc, hb⟩ := of_bind hb
  obtain ⟨rfl, -⟩ := (alloc_ends h (by intro _ _ e; cases e)
    fun hn => absurd (he.symm.trans hn) (by decide)).of_ok hc
  have hd : frameAt a.uses.length ≠ kernelDirectory := fun e => h.kernel.fresh e.symm
  obtain ⟨_, c', hc', hb⟩ := of_bind hb
  have hn : (plan f).2 = none := hf
  rw [hn] at hb
  injection hb with _ e
  subst e
  have hself : SelfMapped c' := (Keeps.forM fun r _ => keeps_serve hd r).of_ok
    ((keeps_alloc .directory).of_ok hk.self hc) hc'
  exact hself

/-- after any calls of `execv` -/
theorem kernelShown_run {files : List File} (hf : ∀ f ∈ files, Accepted f) {b : Frames}
    (hb : run files boot = .ok ⟨⟩ b) : KernelShown b := by
  obtain ⟨_, a, ha, hloads⟩ := of_bind hb
  clear hb
  have hbooted := ksetup_ends.of_ok ha
  have hk := kernelShown_ksetup ha
  have hok := hbooted.ok
  have he := hbooted.enabled
  clear ha hbooted
  induction files generalizing a with
  | nil =>
    injection hloads with _ e
    exact e ▸ hk
  | cons f files ih =>
    obtain ⟨_, c, hc, hloads⟩ := of_bind hloads
    have hacc := hf f List.mem_cons_self
    have hl := (load_ends hok he hacc).of_ok hc
    exact ih (fun g hg => hf g (List.mem_cons_of_mem _ hg)) c hloads (kernelShown_load hok he hacc hk hc)
      hl.ok (hl.grows.enabled.trans he)

end Frames

/-! ## the walks -/

theorem stackPage_mem {p : Nat} (hp : StackPage p) : .stackPage (4096 * p) ∈ stackRequests := by
  unfold StackPage at hp
  refine List.mem_map.mpr ⟨0xfeff - p, List.mem_range.mpr ?_, ?_⟩
  · rw [userStackSize, pageSize_eq]
    omega
  · rw [pageSize_eq]
    congr 1
    omega

/-- the pages of the stack have frames of their own in the directory `d` -/
def StackOwn (s : Loader) (d : Nat) : Prop :=
  ∀ p, StackPage p → ∃ y, y % pageSize = 0 ∧ freeMemoryPageStart ≤ y ∧
    y + pageSize ≤ freeMemoryPageStart + freeMemoryPageLength ∧
    (∀ k < pageSize, checkAddressMapping s.paging (pageSize * p + k) d = some (y + k)) ∧
    ∀ d', (d' = s.kernelPagingDirectory ∨ d' ∈ s.directories) → ∀ v < 2^32, ¬ KernelPage (v / pageSize) →
      ∀ k < pageSize, checkAddressMapping s.paging v d' = some (y + k) → d' = d ∧ v / pageSize = p

theorem walk_kernelPage {s : Loader} {a : Frames} (h : Shape s a) {d v : Nat} (hd : a.At d .directory)
    (hv : v < 2^32) (hm : a.map d (v / 4096) = some (4096 * (v / 4096))) :
    checkAddressMapping s.paging v d = some v := by
  rw [h.walk hd hv, hm]
  show some (4096 * (v / 4096) + v % 4096) = some v
  rw [Nat.div_add_mod]

theorem stackOwn_of_filled {s : Loader} {a : Frames} {d : Nat} {l : List Request} (h : Shape s a)
    (hk : KernelShown a) (hpool : InPool s.handedOut) (hd : d ∈ a.directories) (hF : Filled d l s a)
    (hstack : ∀ p, StackPage p → a.map d p ≠ none) : StackOwn s d := by
  obtain ⟨hat, hne⟩ := h.ok.processes d hd
  intro p hp
  obtain ⟨y, hy⟩ := Option.ne_none_iff_exists'.mp (hstack p hp)
  have hnot : ∀ q, StackPage q → ¬ KernelPage q := by
    intro q hq
    unfold StackPage at hq
    rw [kernelPage_iff]
    omega
  have hpage : p < 2^20 := by
    unfold StackPage at hp
    omega
  have hown : a.At y (.page d) := (h.ok.own d p y hne hy).resolve_left fun e => hnot p hp e.1
  have hyin : y ∈ s.handedOut := by
    obtain ⟨i, hi, rfl⟩ := hown
    rw [h.log]
    exact List.mem_map_of_mem (List.mem_range.mpr (List.getElem?_eq_some_iff.mp hi).1)
  obtain ⟨hlo, hhi⟩ := hpool.inside y hyin
  have hal := hpool.aligned y hyin
  refine ⟨y, hal, hlo, hhi, fun k hklt => ?_, fun d' hd' v hv hnk k hklt hw => ?_⟩
  · rw [pageSize_eq] at hklt ⊢
    have e : (4096 * p + k) / 4096 = p := by omega
    have e' : (4096 * p + k) % 4096 = k := by omega
    rw [h.walk hat (by omega), e, hy, e']
    rfl
  rw [pageSize_eq] at hnk hklt hal hhi ⊢
  have hmap : ∀ d', a.At d' .directory → checkAddressMapping s.paging v d' = some (y + k) →
      a.map d' (v / 4096) = some y := by
    intro d' hat' hw
    rw [h.walk hat' hv] at hw
    cases hm : a.map d' (v / 4096) with
    | none =>
      rw [hm] at hw
      cases hw
    | some x =>
      rw [hm] at hw
      have hx := (h.ok.physical d' _ x hm).1
      have e : x + v % 4096 = y + k := Option.some.inj hw
      have e' : x = y := by omega
      rw [e']
  by_cases hkd : d' = s.kernelPagingDirectory
  · -- the kernel maps the pages of the pool at their own addresses only
    rw [h.kernel] at hkd
    subst hkd
    have hm := hmap _ h.ok.kernel hw
    rw [freeMemoryPageStart_eq] at hlo hhi
    rw [freeMemoryPageLength_eq] at hhi
    rw [kernelPage_iff] at hnk
    rcases hk.self _ _ hm with e | ⟨-, e⟩
    · omega
    · rw [testPage_eq] at e
      omega
  · have hd' := hd'.resolve_left hkd
    rw [h.directories] at hd'
    obtain ⟨hat', hne'⟩ := h.ok.processes d' hd'
    have hm := hmap d' hat' hw
    have hown' : a.At y (.page d') := (h.ok.own d' _ y hne' hm).resolve_left fun e => hnk e.1
    injection hown.unique hown' with e
    subst e
    exact ⟨rfl, hF.apart _ _ y hnk (hnot p hp) hm hy⟩

/-- **After any calls of `execv` the directory of the new process maps every address of `Kernel_maps` to
itself, as the kernel's directory does, and the pages of the stack to frames of their own.**  The
segments may lie anywhere, and the pool is not exhausted. -/
theorem regions_mapped (mem : Mem) (files : List File) (hfiles : ∀ f ∈ files, Accepted f) (g : File)
    (hg : Accepted g) (s : Loader) (hs : Loader.run (files ++ [g]) (Loader.boot mem) = .ok ⟨⟩ s)
    (hpool : InPool s.handedOut) (d : Nat) (hd : s.directories.getLast? = some d) :
    (∀ v, KernelPage (v / pageSize) → checkAddressMapping s.paging v d = some v ∧
      checkAddressMapping s.paging v s.kernelPagingDirectory = some v ∧
      ∀ s₀, Loader.ksetupKernelPaging (Loader.boot mem) = .ok ⟨⟩ s₀ →
        checkAddressMapping s₀.paging v s₀.kernelPagingDirectory = some v) ∧
    StackOwn s d := by
  obtain ⟨a, d', s₁, hshape, ha, -, hdirs, hF⟩ := run_last mem hfiles hg hs
  have hall := accepted_snoc hfiles hg
  have hb := (run_ends hall).of_ok ha
  have hk := kernelShown_run hall ha
  obtain ⟨rfl, hmem⟩ := last_directory hshape hdirs hd
  have hc := hb.complete d' hmem
  refine ⟨fun v hv => ?_, stackOwn_of_filled hshape hk hpool hmem hF fun p hp => ?_⟩
  · rw [pageSize_eq] at hv
    have hlt : v < 2^32 := by
      rw [kernelPage_iff] at hv
      omega
    refine ⟨walk_kernelPage hshape (hshape.ok.processes d' hmem).1 hlt (hc.kernel _ hv), ?_, ?_⟩
    · rw [hshape.kernel]
      exact walk_kernelPage hshape hshape.ok.kernel hlt (hk.map hv)
    · intro s₀ hs₀
      obtain ⟨a₀, ha₀, hshape₀⟩ := alike_ok (alike_ksetup mem) hs₀
      rw [hshape₀.kernel]
      exact walk_kernelPage hshape₀ hshape₀.ok.kernel hlt ((kernelShown_ksetup ha₀).map hv)
  · have hr := hc.stack (.stackPage (4096 * p)) (stackPage_mem hp)
    have e : (Request.stackPage (4096 * p)).page = p := Nat.mul_div_cancel_left p (by decide)
    rwa [e] at hr

/-- the smallest program leaves most of the pool -/
theorem inPool_small {s : Loader}
    (hs : Loader.run ([] ++ [smallProgram]) (Loader.boot fun _ => 0) = .ok ⟨⟩ s) : InPool s.handedOut := by
  have hlog := handedOut_run (fun _ => 0) (accepted_snoc (List.forall_mem_nil Accepted) smallProgram_accepted)
  rw [hs] at hlog
  have hle := framesOf_le smallProgram
  rw [smallProgram_segments] at hle
  have hlog : s.handedOut = _ := hlog
  rw [hlog, inPool_iff, poolPages_eq, framesNeeded, List.nil_append, List.map_singleton, List.sum_singleton]
  have h254 : 254 + framesOf smallProgram ≤ 25600 := by omega
  exact (Nat.min_le_left _ _).trans h254

/-- one small program -/
theorem regions_mapped_small : ∃ s d,
    Loader.run ([] ++ [smallProgram]) (Loader.boot fun _ => 0) = .ok ⟨⟩ s ∧
      checkAddressMapping s.paging textMemoryStart d = some textMemoryStart ∧ StackOwn s d := by
  obtain ⟨s, d, hs, hd⟩ := run_single smallProgram_accepted (by rw [smallProgram_segments]; decide)
  obtain ⟨hself, hown⟩ := regions_mapped (fun _ => 0) [] (List.forall_mem_nil Accepted) smallProgram
    smallProgram_accepted s hs (inPool_small hs) d hd
  exact ⟨s, d, hs, (hself textMemoryStart ((kernelPage_iff _).mpr (by decide))).1, hown⟩

end StarOS
