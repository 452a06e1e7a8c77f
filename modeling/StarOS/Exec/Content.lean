import StarOS.Exec.Isolation

/-!
# What a loaded process finds in its memory (`execv`, `add_memory_mapping`)

Each request for a new page takes a frame, maps it at its page and leaves bytes in it; the last request
for a page wins.

* `Request.byte`       the bytes a request leaves in its page;
* `lastFor l p`        the last request of `l` for page `p`;
* `Filled d l s a`     the directory `d` shows the requests `l`: each page is mapped to the frame of the
                       last request for it, with its bytes, and no frame is mapped twice;
* `filled_serve`, `filled_requests`, `run_last`   one request, a list, and the last `execv` of a run.
-/

namespace StarOS
open Lib Frames

/-- byte `k` of the page of a request -/
def Request.byte : Request → Nat → UInt8
  | .firstPage _ offset data, k => if k < offset then 0 else data.getD (k - offset) 0
  | .nextPage _ data, k => data.getD k 0
  | .stackPage _, _ => 0
  | .kernelPage _ _, _ => 0

/-- the last request for page `p` -/
def lastFor (l : List Request) (p : Nat) : Option Request :=
  l.reverse.find? fun r => r.page == p

theorem lastFor_append (l l' : List Request) (p : Nat) :
    lastFor (l ++ l') p = (lastFor l' p).or (lastFor l p) := by
  rw [lastFor, List.reverse_append, List.find?_append]
  rfl

theorem lastFor_singleton (r : Request) (p : Nat) :
    lastFor [r] p = if r.page = p then some r else none := by
  rw [lastFor, List.reverse_singleton, List.find?_singleton]
  simp only [beq_iff_eq]

theorem lastFor_eq_none {l : List Request} {p : Nat} : lastFor l p = none ↔ ∀ r ∈ l, r.page ≠ p := by
  rw [lastFor, List.find?_eq_none]
  simp only [List.mem_reverse, beq_iff_eq]

theorem writeBytes_in {m : Mem} {a : Nat} {data : List UInt8} {k : Nat} (h : k < data.length) :
    writeBytes m a data (a + k) = data.getD k 0 := by
  induction data generalizing m a k with
  | nil => cases h
  | cons b data ih =>
    cases k with
    | zero =>
      show writeBytes (writeByte m a b) (a + 1) data a = b
      rw [writeBytes_apart (by omega), writeByte, if_pos rfl]
    | succ k =>
      have hk : k < data.length := Nat.lt_of_succ_lt_succ h
      have e : a + (k + 1) = a + 1 + k := by omega
      show writeBytes (writeByte m a b) (a + 1) data (a + (k + 1)) = data.getD k 0
      rw [e, ih hk]

namespace Frames

/-- the page of a request is mapped to the next frame -/
theorem serve_new {a b : Frames} {d : Nat} {r : Request} (h : Ready d a) (hr : Proper d r)
    (hn : r.newPages = 1) (hb : serve d r a = .ok ⟨⟩ b) :
    b.At (frameAt a.uses.length) (.page d) ∧ b.map d r.page = some (frameAt a.uses.length) := by
  have hnew : ∀ p < 2^20, mapNewPage d p a = .ok ⟨⟩ b →
      b.At (frameAt a.uses.length) (.page d) ∧ b.map d p = some (frameAt a.uses.length) := by
    intro p hp hb
    obtain ⟨-, hat, hm, -⟩ := (mapNewPage_ends h hp).of_ok hb
    exact ⟨hat, hm⟩
  have hv := hr.valid
  cases r with
  | firstPage vpage offset data => exact hnew _ (Nat.div_lt_of_lt_mul hv.2.1) hb
  | nextPage vaddr data => exact hnew _ (Nat.div_lt_of_lt_mul hv.2.1) hb
  | stackPage vaddr => exact hnew _ (Nat.div_lt_of_lt_mul hv.2) hb
  | kernelPage vaddr physical => cases hn

end Frames


/-! ## one request -/

/-- a page after `alloc_page`, and what the abstract machine did for it -/
theorem alloc_returns {s s₁ : Loader} {a : Frames} {d page : Nat} (h : Shape s a) (hd : Ready d a)
    (hs : Loader.allocFrame s = .ok page s₁) :
    page = frameAt a.uses.length ∧ ∃ b, After s a s₁ b ∧ Fresh d page b ∧
      ∀ k < 4096, s₁.paging.mem (page + k) = 0 := by
  have hroom : a.isPagingEnabled = false → a.uses.length < frameLimit := fun he => by
    have := hd.length he
    omega
  have hlike : Alike (After s a) (Loader.allocFrame s) (alloc (.page d) a) :=
    alike_alloc h (by intro _ _ e; cases e) hroom
  rcases alloc_sides h hroom with ⟨e, s', b, hs', -, -⟩ | ⟨s', b, hI, hu, -, hlt, hs', ha⟩
  · cases hs.symm.trans hs'
  · have hb := ha (.page d)
    rw [hs', hb] at hlike
    rw [hs'] at hs
    injection hs with e1 e2
    subst e1 e2
    cases hlike with
    | ok hA =>
      refine ⟨by rw [hu], _, hA, fresh_of_alloc hd hb, fun k hk => ?_⟩
      exact handOut_zero hI.shape hlt _ (by omega) (by omega)

/-- mapping the page leaves its bytes -/
theorem map_returns {s s₁ : Loader} {a : Frames} {d page v : Nat} (h : Shape s a) (hf : Fresh d page a)
    (hd : d ≠ kernelDirectory) (hv : v % 4096 = 0) (hlt : v < 2^32)
    (hs : Loader.addMapping v page d true s = .ok ⟨⟩ s₁) :
    ∀ k < 4096, s₁.paging.mem (page + k) = s.paging.mem (page + k) := by
  have hlike := hf.map h hd hv hlt
  rw [hs] at hlike
  cases hb : mapPage d (v / 4096) page a with
  | error e b =>
    rw [hb] at hlike
    cases hlike
  | ok u b =>
    rw [hb] at hlike
    cases hlike with
    | ok hA => exact fun k hk => hA.same page d hf.page _ (by omega) (by omega)

theorem memset_mem {s s' : Loader} {page : Nat} (h : Loader.memset page s = .ok ⟨⟩ s') {k : Nat}
    (hk : k < 4096) : s'.paging.mem (page + k) = 0 := by
  injection h with _ h
  subst h
  show zeromem s.paging.mem page pageSize (page + k) = 0
  rw [zeromem_apply, pageSize_eq, if_pos (by omega)]

theorem copy_mem {s s' : Loader} {page offset : Nat} {data : List UInt8}
    (h : Loader.copy (page + offset) data s = .ok ⟨⟩ s') {k : Nat} (hz : s.paging.mem (page + k) = 0) :
    s'.paging.mem (page + k) = if k < offset then 0 else data.getD (k - offset) 0 := by
  injection h with _ h
  subst h
  show writeBytes s.paging.mem (page + offset) data (page + k) = _
  by_cases hlo : k < offset
  · rw [if_pos hlo, writeBytes_apart (by omega), hz]
  · rw [if_neg hlo]
    by_cases hhi : k - offset < data.length
    · have e : page + k = page + offset + (k - offset) := by omega
      rw [e, writeBytes_in hhi]
    · rw [writeBytes_apart (by omega), hz, List.getD_eq_getElem?_getD,
        List.getElem?_eq_none (by omega)]
      rfl

/-- the bytes a request leaves in its page -/
theorem serve_bytes {s s' : Loader} {a : Frames} {d : Nat} {r : Request} (h : Shape s a) (hd : Ready d a)
    (hr : Proper d r) (hk : d ≠ kernelDirectory) (hn : r.newPages = 1)
    (hs : Loader.serve d r s = .ok ⟨⟩ s') :
    ∀ k < 4096, s'.paging.mem (frameAt a.uses.length + k) = r.byte k := by
  intro k hklt
  have hv := hr.valid
  cases r with
  | firstPage vpage offset data =>
    obtain ⟨hva, hlt, hdata⟩ := hv
    obtain ⟨page, s₁, h₁, hs⟩ := of_bind hs
    obtain ⟨_, s₂, h₂, hs⟩ := of_bind hs
    obtain ⟨_, s₃, h₃, hs⟩ := of_bind hs
    obtain ⟨rfl, b, hA, hf, -⟩ := alloc_returns h hd h₁
    obtain ⟨s₂', h₂', hA₂⟩ := memset_after hA hf.page fun u ht => ht.fresh rfl
    rw [h₂] at h₂'
    injection h₂' with _ e
    subst e
    refine copy_mem hs ?_
    rw [map_returns hA₂.shape hf hk hva hlt h₃ k hklt, memset_mem h₂ hklt]
  | nextPage vaddr data =>
    obtain ⟨hva, hlt, hdata⟩ := hv
    obtain ⟨page, s₁, h₁, hs⟩ := of_bind hs
    obtain ⟨_, s₂, h₂, hs⟩ := of_bind hs
    obtain ⟨_, s₃, h₃, hs⟩ := of_bind hs
    obtain ⟨rfl, b, hA, hf, -⟩ := alloc_returns h hd h₁
    have hs : Loader.copy (frameAt a.uses.length + 0) data s₃ = .ok ⟨⟩ s' := hs
    have hc := copy_mem hs (memset_mem h₃ hklt)
    rw [if_neg (Nat.not_lt_zero k)] at hc
    exact hc
  | stackPage vaddr =>
    obtain ⟨hva, hlt⟩ := hv
    obtain ⟨page, s₁, h₁, hs⟩ := of_bind hs
    obtain ⟨rfl, b, hA, hf, hzero⟩ := alloc_returns h hd h₁
    rw [map_returns hA.shape hf hk hva hlt hs k hklt, hzero k hklt]
    rfl
  | kernelPage vaddr physical => cases hn


/-! ## a list of requests -/

/-- the directory `d` after the requests `l` -/
structure Filled (d : Nat) (l : List Request) (s : Loader) (a : Frames) : Prop where
  absent : ∀ p, lastFor l p = none → a.map d p = none
  /-- the last request for a page has a frame there, which holds its bytes -/
  page : ∀ p r, lastFor l p = some r → r.newPages = 1 → ∃ y, a.map d p = some y ∧ a.At y (.page d) ∧
    ∀ k < 4096, s.paging.mem (y + k) = r.byte k
  /-- outside `Kernel_maps` no frame is mapped twice -/
  apart : ∀ p q y, ¬ KernelPage p → ¬ KernelPage q → a.map d p = some y → a.map d q = some y → p = q

/-- one request more -/
theorem filled_serve {s s' : Loader} {a b : Frames} {d : Nat} {l : List Request} {r : Request}
    (h : Shape s a) (hd : Ready d a) (hr : Proper d r) (hk : d ≠ kernelDirectory)
    (hs : Loader.serve d r s = .ok ⟨⟩ s') (hb : serve d r a = .ok ⟨⟩ b) (hA : After s a s' b)
    (hF : Filled d l s a) : Filled d (l ++ [r]) s' b := by
  have hserved := (serve_ends hd hr).of_ok hb
  have helse := hserved.elsewhere hk
  have hlast : ∀ p, lastFor (l ++ [r]) p = if r.page = p then some r else lastFor l p := by
    intro p
    rw [lastFor_append, lastFor_singleton]
    split <;> rfl
  -- what is mapped outside `Kernel_maps` was taken before
  have hold : ∀ p y, ¬ KernelPage p → a.map d p = some y → y ≠ frameAt a.uses.length := by
    intro p y hp hy
    exact ((h.ok.own d p y hk hy).resolve_left fun e => hp e.1).fresh
  refine ⟨fun p hp => ?_, fun p q hq hn => ?_, fun p q y hp hq hpy hqy => ?_⟩
  · rw [hlast] at hp
    split at hp
    · cases hp
    · rename_i hne
      rw [helse p (Ne.symm hne)]
      exact hF.absent p hp
  · rw [hlast] at hq
    split at hq
    · rename_i e
      obtain rfl := Option.some.inj hq
      obtain ⟨hat, hm⟩ := serve_new hd hr hn hb
      exact ⟨_, e ▸ hm, hat, serve_bytes h hd hr hk hn hs⟩
    · rename_i hne
      obtain ⟨y, hy, hat, hbytes⟩ := hF.page p q hq hn
      refine ⟨y, (helse p (Ne.symm hne)).trans hy, at_of_grown hA.uses hat, fun k hk => ?_⟩
      exact (hA.same y d hat _ (by omega) (by omega)).trans (hbytes k hk)
  · -- a request for a page outside `Kernel_maps` takes a new frame
    have hmoved : ∀ p, ¬ KernelPage p → r.page = p → b.map d p = some (frameAt a.uses.length) := by
      intro p hp e
      cases hn : r.newPages == 1 with
      | true => exact e ▸ (serve_new hd hr (beq_iff_eq.mp hn) hb).2
      | false =>
        cases r with
        | kernelPage vaddr physical =>
          exact absurd (e ▸ (hr.identity vaddr physical rfl hk).1) hp
        | firstPage => cases hn
        | nextPage => cases hn
        | stackPage => cases hn
    by_cases e : r.page = p
    · by_cases e' : r.page = q
      · exact e.symm.trans e'
      · rw [hmoved p hp e] at hpy
        rw [helse q (Ne.symm e')] at hqy
        exact absurd (Option.some.inj hpy).symm (hold q y hq hqy)
    · rw [helse p (Ne.symm e)] at hpy
      by_cases e' : r.page = q
      · rw [hmoved q hq e'] at hqy
        exact absurd (Option.some.inj hqy).symm (hold p y hp hpy)
      · rw [helse q (Ne.symm e')] at hqy
        exact hF.apart p q y hp hq hpy hqy

/-- two computations that go the same way, the first of which returns -/
theorem alike_ok {α : Type} {I : Loader → Frames → Prop} {x : EStateM.Result Fatal Loader α}
    {y : EStateM.Result Fatal Frames α} {v : α} {s : Loader} (h : Alike I x y) (hs : x = .ok v s) :
    ∃ b, y = .ok v b ∧ I s b := by
  rw [hs] at h
  cases h with
  | ok hI => exact ⟨_, rfl, hI⟩

theorem filled_requests {l : List Request} {s s' : Loader} {a : Frames} {d : Nat} {served : List Request}
    (h : Shape s a) (hd : Ready d a) (he : a.isPagingEnabled = true) (hl : ∀ r ∈ l, Proper d r)
    (hs : l.forM (Loader.serve d) s = .ok ⟨⟩ s') (hF : Filled d served s a) :
    ∃ b, l.forM (serve d) a = .ok ⟨⟩ b ∧ Shape s' b ∧ Filled d (served ++ l) s' b := by
  induction l generalizing s a served with
  | nil =>
    injection hs with _ hs
    subst hs
    rw [List.append_nil]
    exact ⟨a, rfl, h, hF⟩
  | cons r l ih =>
    have hk := hd.enabled he
    have hr := hl r List.mem_cons_self
    obtain ⟨_, s₁, h₁, hs⟩ := of_bind hs
    obtain ⟨b₁, hb₁, hA⟩ := alike_ok (alike_serve h hd hr fun _ => hk) h₁
    have hserved := (serve_ends hd hr).of_ok hb₁
    have hd₁ := hd.next hserved.takes fun hn => absurd (he.symm.trans hn) (by decide)
    have hF₁ := filled_serve h hd hr hk h₁ hb₁ hA hF
    obtain ⟨b, hb, hshape, hF'⟩ := ih hA.shape hd₁ (hserved.takes.grows.enabled.trans he)
      (fun q hq => hl q (List.mem_cons_of_mem _ hq)) hs hF₁
    rw [List.append_assoc] at hF'
    exact ⟨b, (bind_ok hb₁).trans hb, hshape, hF'⟩

/-! ## one `execv` -/

/-- a new directory maps nothing -/
theorem filled_nil {s : Loader} {a b : Frames} (h : a.Ok) (hb : Took .directory a b) :
    Filled (frameAt a.uses.length) [] s b := by
  have hnone : ∀ p, b.map (frameAt a.uses.length) p = none := by
    intro p
    refine hb.ok.dom _ _ ?_
    rw [hb.table, table_push_other (by intro e; cases e)]
    cases ht : a.table (frameAt a.uses.length) (p / 1024) with
    | none => rfl
    | some t => exact absurd rfl (h.owner _ _ _ (at_of_table ht)).fresh
  refine ⟨fun p _ => hnone p, fun p r hr => ?_, fun p q y _ _ hp => ?_⟩
  · cases hr
  · cases (hnone p).symm.trans hp

/-- loading one file fills its directory as its plan says -/
theorem load_filled {s s' : Loader} {a : Frames} {f : File} (h : Shape s a)
    (he : a.isPagingEnabled = true) (hf : Accepted f) (hs : Loader.load f s = .ok ⟨⟩ s') :
    ∃ b, load f a = .ok ⟨⟩ b ∧ Shape s' b ∧ s'.directories = s.directories ++ [frameAt a.uses.length] ∧
      Filled (frameAt a.uses.length) (plan f).1 s' b := by
  obtain ⟨b, hb, hshape⟩ := alike_ok (alike_load h he hf) hs
  refine ⟨b, hb, hshape, ?_⟩
  have hn : (plan f).2 = none := hf
  have hroom : a.isPagingEnabled = false → a.uses.length < frameLimit := fun hn =>
    absurd (he.symm.trans hn) (by decide)
  obtain ⟨d, s₁, h₁, hs⟩ := of_bind hs
  obtain ⟨_, s₂, h₂, hs⟩ := of_bind hs
  rw [memset_allocFrame h he h₁] at h₂
  injection h₂ with _ e
  subst e
  have hlike : Alike (After s a) (Loader.allocFrame s) (alloc .directory a) :=
    alike_alloc h (by intro _ _ e; cases e) hroom
  obtain ⟨b₁, hb₁, hA⟩ := alike_ok hlike h₁
  obtain ⟨rfl, ht⟩ := (alloc_ends h.ok (by intro _ _ e; cases e) hroom).of_ok hb₁
  obtain ⟨_, s₃, h₃, hs⟩ := of_bind hs
  have hproper : ∀ r ∈ (plan f).1, Proper (frameAt a.uses.length) r := plan_proper hf _
  obtain ⟨c, hc, hshape', hF⟩ := filled_requests hA.shape (ready_directory h.ok he ht)
    (ht.enabled.trans he) hproper h₃ (filled_nil h.ok ht)
  have hload : load f a = .ok ⟨⟩ { c with directories := c.directories ++ [frameAt a.uses.length] } := by
    unfold load
    rw [bind_ok hb₁, bind_ok hc, hn]
    rfl
  have hbc := hb.symm.trans hload
  injection hbc with _ e
  subst e
  rw [hn] at hs
  injection hs with _ e
  subst e
  refine ⟨?_, hF.absent, hF.page, hF.apart⟩
  have hdirs := hshape.directories
  have hl := (load_ends h.ok he hf).of_ok hb
  rw [hdirs, hl.directories, h.directories]

theorem Loader.run_snoc (files : List File) (f : File) (s : Loader) :
    Loader.run (files ++ [f]) s = (Loader.run files >>= fun _ => Loader.load f) s := by
  unfold Loader.run
  rw [forM_snoc, bind_assoc]

theorem Frames.run_snoc (files : List File) (f : File) (a : Frames) :
    run (files ++ [f]) a = (run files >>= fun _ => load f) a := by
  unfold run
  rw [forM_snoc, bind_assoc]

/-- the last of several files -/
theorem run_last (mem : Mem) {files : List File} (hfiles : ∀ f ∈ files, Accepted f) {f : File}
    (hf : Accepted f) {s : Loader} (hs : Loader.run (files ++ [f]) (Loader.boot mem) = .ok ⟨⟩ s) :
    ∃ a d s₀, Shape s a ∧ Frames.run (files ++ [f]) Frames.boot = .ok ⟨⟩ a ∧
      Loader.run files (Loader.boot mem) = .ok ⟨⟩ s₀ ∧ s.directories = s₀.directories ++ [d] ∧
      Filled d (plan f).1 s a := by
  rw [Loader.run_snoc] at hs
  obtain ⟨_, s₀, h₀, hs⟩ := of_bind hs
  obtain ⟨a₀, ha₀, hshape₀⟩ := alike_ok (alike_run mem hfiles) h₀
  have hb₀ := (run_ends hfiles).of_ok ha₀
  obtain ⟨b, hb, hshape, hdirs, hF⟩ := load_filled hshape₀ hb₀.enabled hf hs
  refine ⟨b, _, s₀, hshape, ?_, h₀, hdirs, hF⟩
  rw [Frames.run_snoc, bind_ok ha₀, hb]

/-- the last directory is the one that was added -/
theorem last_directory {s : Loader} {a : Frames} (h : Shape s a) {l : List Nat} {d d' : Nat}
    (hdirs : s.directories = l ++ [d']) (hd : s.directories.getLast? = some d) : d' = d ∧ d' ∈ a.directories := by
  rw [hdirs, List.getLast?_concat] at hd
  refine ⟨Option.some.inj hd, ?_⟩
  rw [← h.directories, hdirs]
  exact List.mem_append_right _ (List.mem_singleton_self d')

theorem accepted_snoc {files : List File} (hfiles : ∀ f ∈ files, Accepted f) {f : File} (hf : Accepted f) :
    ∀ g ∈ files ++ [f], Accepted g := by
  intro g hg
  rcases List.mem_append.mp hg with hg | hg
  · exact hfiles g hg
  · rw [List.mem_singleton.mp hg]
    exact hf

end StarOS
