import StarOS.Exec.Frames
import Mathlib.Order.Interval.Finset.Nat
import Mathlib.Algebra.BigOperators.Group.List.Basic

/-!
# What `execv` takes from the pool

Each program of `Frames` has one lemma that says how it ends: either well, with what it took
(`Takes`) and what it mapped, or halted in `alloc_page` with every frame up to `frameLimit` taken
(`Exhausts`).

* `alloc_ends`, `mapPage_ends`, `serve_ends`   one frame, one page, one request;
* `requests_ends`      a list of requests: a page for each segment or stack page, and a table for
                       each 4MB slot that has none yet;
* `framesOf f`         the frames a file needs, from its program headers;
* `load_ends`, `run_ends`   one `execv`, and any number of them.
-/

namespace StarOS
open Lib

namespace Frames

/-! ## one frame -/

/-- the first access to the next page of the pool: it is mapped, it is mapped to itself, or the
stack overflows -/
theorem touch_cases {a : Frames} (h : a.Ok) :
    (touch a.uses.length a = .ok ⟨⟩ a ∧ (a.isPagingEnabled = true → a.uses.length < frameLimit)) ∨
    (touch a.uses.length a
        = .ok ⟨⟩ (a.point kernelDirectory (frameAt a.uses.length / 4096) (frameAt a.uses.length)) ∧
      a.uses.length < frameLimit ∧
      (a.point kernelDirectory (frameAt a.uses.length / 4096) (frameAt a.uses.length)).Ok) ∨
    (touch a.uses.length a = .error .kernelStackOverflow a ∧ a.uses.length = frameLimit) := by
  have hfew := h.few
  generalize a.uses.length = i at hfew ⊢
  cases he : a.isPagingEnabled with
  | false => exact .inl ⟨by simp [touch, he], fun h => absurd h (by decide)⟩
  | true =>
    have ht := h.kernelTables he i hfew
    have e : frameAt i / 4096 / 1024 = frameAt i / 4194304 := by omega
    by_cases hi : i < frameLimit
    · have ht := ht.mpr hi
      cases hm : (a.map kernelDirectory (frameAt i / 4096)).isSome with
      | true => exact .inl ⟨by simp [touch, hm], fun _ => hi⟩
      | false =>
        refine .inr (.inl ⟨by simp [touch, he, hm, ht], hi, ?_⟩)
        refine ok_point h ?_ ?_ fun hk => absurd rfl hk
        · rw [e]
          exact Option.isSome_iff_ne_none.mp ht
        · unfold frameLimit at hi
          rw [frameAt_eq]
          omega
    · have ht : a.table kernelDirectory (frameAt i / 4194304) = none :=
        Option.not_isSome_iff_eq_none.mp fun hs => hi (ht.mp hs)
      have hm : a.map kernelDirectory (frameAt i / 4096) = none := h.dom _ _ (by rw [e, ht])
      exact .inr (.inr ⟨by simp [touch, he, hm, ht], by omega⟩)

/-- a first access that goes well -/
theorem touch_ok {a b : Frames} (h : a.Ok) (hb : touch a.uses.length a = .ok ⟨⟩ b) :
    b.Ok ∧ b.uses = a.uses ∧ b.isPagingEnabled = a.isPagingEnabled ∧
      (a.isPagingEnabled = true → a.uses.length < frameLimit) := by
  rcases touch_cases h with ⟨ht, hlt⟩ | ⟨ht, hlt, hok⟩ | ⟨ht, -⟩
  · rw [ht] at hb
    injection hb with _ hb
    subst hb
    exact ⟨h, rfl, rfl, hlt⟩
  · rw [ht] at hb
    injection hb with _ hb
    subst hb
    exact ⟨hok, rfl, rfl, fun _ => hlt⟩
  · rw [ht] at hb
    cases hb

theorem alloc_ok {a b : Frames} (u : Use) (h : touch a.uses.length a = .ok ⟨⟩ b) :
    alloc u a = .ok (frameAt b.uses.length) (b.push u) := by
  unfold alloc
  rw [bind_get, bind_ok h]
  rfl

theorem alloc_error {a b : Frames} {e : Fatal} (u : Use) (h : touch a.uses.length a = .error e b) :
    alloc u a = .error e b := by
  unfold alloc
  rw [bind_get, bind_error h]

/-- `b` is `a` with one frame more, and possibly one page more in the kernel's directory -/
structure Took (u : Use) (a b : Frames) : Prop where
  ok : b.Ok
  uses : b.uses = a.uses ++ [u]
  enabled : b.isPagingEnabled = a.isPagingEnabled
  directories : b.directories = a.directories
  map : ∀ d p, d ≠ kernelDirectory → b.map d p = a.map d p
  defined : ∀ d p, a.map d p ≠ none → b.map d p ≠ none

theorem Took.grows {u : Use} {a b : Frames} (h : Took u a b) (d : Nat) : Grows d a b :=
  ⟨⟨[u], h.uses.symm⟩, h.enabled, h.directories, fun d' p _ hk => h.map d' p hk, h.defined⟩

theorem Took.table {u : Use} {a b : Frames} (h : Took u a b) (d j : Nat) :
    b.table d j = (a.push u).table d j := table_congr h.uses d j

theorem Took.length {u : Use} {a b : Frames} (h : Took u a b) : b.uses.length = a.uses.length + 1 := by
  rw [h.uses, List.length_append, List.length_singleton]

theorem alloc_ends {a : Frames} {u : Use} (h : a.Ok)
    (hu : ∀ d j, u = .table d j → a.At d .directory ∧ (a.isPagingEnabled = true → d ≠ kernelDirectory))
    (hroom : a.isPagingEnabled = false → a.uses.length < frameLimit) :
    Ends (fun t b => t = frameAt a.uses.length ∧ Took u a b)
      (fun e b => e = .kernelStackOverflow ∧ b.uses.length = frameLimit ∧ a.uses.length = frameLimit)
      (alloc u a) := by
  rcases touch_cases h with ⟨ht, hlt⟩ | ⟨ht, hlt, hok⟩ | ⟨ht, hlen⟩
  · have hlt : a.uses.length < frameLimit := by
      cases he : a.isPagingEnabled with
      | true => exact hlt he
      | false => exact hroom he
    rw [alloc_ok u ht]
    exact .ok ⟨rfl, ok_push h hlt hu, rfl, rfl, rfl, fun _ _ _ => rfl, fun _ _ h => h⟩
  · rw [alloc_ok u ht]
    refine .ok ⟨rfl, ok_push hok hlt hu, rfl, rfl, rfl, ?_, ?_⟩
    · intro d p hd
      exact if_neg fun e => hd e.1
    · intro d p hn
      show (if _ then _ else _) ≠ none
      split
      · exact Option.some_ne_none _
      · exact hn
  · rw [alloc_error u ht]
    exact .error ⟨rfl, hlen, hlen⟩

/-! ## one page -/

/-- what holds before a request for the directory `d`.  Before paging is enabled all frames but one
are page tables, so there are few of them. -/
structure Ready (d : Nat) (a : Frames) : Prop where
  ok : a.Ok
  directory : a.At d .directory
  enabled : a.isPagingEnabled = true → d ≠ kernelDirectory
  room : a.isPagingEnabled = false → a.uses.length ≤ (a.slots d).card + 1

theorem slots_card_le (a : Frames) (d : Nat) : (a.slots d).card ≤ 1024 :=
  (Finset.card_filter_le _ _).trans (Finset.card_range 1024).le

theorem Ready.length {d : Nat} {a : Frames} (h : Ready d a) (he : a.isPagingEnabled = false) :
    a.uses.length + 2 ≤ frameLimit := by
  have h1 := h.room he
  have h2 := a.slots_card_le d
  unfold frameLimit
  omega

theorem Ready.next {d n : Nat} {S : Finset Nat} {a b : Frames} (h : Ready d a) (hb : Takes d n S a b)
    (hn : a.isPagingEnabled = false → n = 0) : Ready d b where
  ok := hb.ok
  directory := hb.grows.at h.directory
  enabled := fun he => h.enabled (hb.grows.enabled ▸ he)
  room := by
    intro he
    rw [hb.grows.enabled] at he
    have h1 := h.room he
    have h2 := hn he
    have h3 := hb.length
    omega

theorem ensureTable_some {a : Frames} {d j : Nat} (h : (a.table d j).isSome = true) :
    ensureTable d j a = .ok ⟨⟩ a := by
  show (if (a.table d j).isSome then pure ⟨⟩ else _ : FrameM PUnit) a = _
  rw [if_pos h]
  rfl

theorem ensureTable_none {a : Frames} {d j : Nat} (h : (a.table d j).isSome = false) :
    ensureTable d j a = (alloc (.table d j) >>= fun _ => pure ⟨⟩ : FrameM PUnit) a := by
  show (if (a.table d j).isSome then pure ⟨⟩ else _ : FrameM PUnit) a = _
  rw [if_neg (by simp [h])]

theorem ensureTable_ends {a : Frames} {d j : Nat} (h : a.Ok) (hd : a.At d .directory)
    (hk : a.isPagingEnabled = true → d ≠ kernelDirectory)
    (hroom : a.isPagingEnabled = false → a.uses.length < frameLimit) (hj : j < 1024) :
    Ends (fun _ b => Takes d 0 {j} a b ∧ (b.table d j).isSome = true ∧
        ∀ d' p, d' ≠ kernelDirectory → b.map d' p = a.map d' p)
      (Exhausts d 0 {j} a) (ensureTable d j a) := by
  cases ht : (a.table d j).isSome with
  | true =>
    rw [ensureTable_some ht]
    have hmem : j ∈ a.slots d := Finset.mem_filter.mpr ⟨Finset.mem_range.mpr hj, ht⟩
    have hs : a.slots d = a.slots d ∪ {j} :=
      (Finset.union_eq_left.mpr (Finset.singleton_subset_iff.mpr hmem)).symm
    exact .ok ⟨⟨h, .refl d a, hs, rfl⟩, ht, fun _ _ _ => rfl⟩
  | false =>
    rw [ensureTable_none ht]
    have hnot : j ∉ a.slots d := fun hmem => by
      rw [slots, Finset.mem_filter, ht] at hmem
      exact absurd hmem.2 (by decide)
    have hcard : (a.slots d ∪ {j}).card = (a.slots d).card + 1 := by
      rw [Finset.card_union_of_disjoint (Finset.disjoint_singleton_right.mpr hnot), Finset.card_singleton]
    have hu : ∀ d' j', Use.table d j = .table d' j' →
        a.At d' .directory ∧ (a.isPagingEnabled = true → d' ≠ kernelDirectory) := by
      intro d' j' e
      injection e with e1 e2
      subst e1
      exact ⟨hd, hk⟩
    refine ((alloc_ends h hu hroom).imp (fun _ _ h => h) ?_).bind ?_
    · rintro e b ⟨he, hb, ha⟩
      exact ⟨he, hb, by omega⟩
    · rintro t b ⟨-, hb⟩
      have hslots : b.slots d = a.slots d ∪ {j} := by
        rw [← slots_push_table hj]
        exact slots_congr fun i => hb.table d i
      refine .ok ⟨⟨hb.ok, hb.grows d, hslots, ?_⟩, ?_, hb.map⟩
      · rw [hb.length, hslots, hcard]
        omega
      · rw [hb.table, table_push_self (Option.not_isSome_iff_eq_none.mp (by simp [ht]))]
        rfl

theorem mapPage_ends {a : Frames} {d p x : Nat} (h : a.Ok) (hd : a.At d .directory)
    (hk : a.isPagingEnabled = true → d ≠ kernelDirectory)
    (hroom : a.isPagingEnabled = false → a.uses.length < frameLimit) (hp : p < 2^20)
    (hx : x % 4096 = 0 ∧ x < 2^32)
    (ho : d ≠ kernelDirectory → KernelPage p ∧ x = 4096 * p ∨ a.At x (.page d)) :
    Ends (fun _ b => Takes d 0 {p / 1024} a b ∧ b.map d p = some x ∧
        (d ≠ kernelDirectory → ∀ q, q ≠ p → b.map d q = a.map d q))
      (Exhausts d 0 {p / 1024} a) (mapPage d p x a) := by
  refine (ensureTable_ends h hd hk hroom (by omega)).bind ?_
  rintro _ b ⟨hb, ht, hm⟩
  have hok : (b.point d p x).Ok := ok_point hb.ok (Option.isSome_iff_ne_none.mp ht) hx
    fun hd => (ho hd).imp_right fun hx => hb.grows.at hx
  refine .ok ⟨⟨hok, ?_, hb.slots, hb.length⟩, if_pos ⟨rfl, rfl⟩, ?_⟩
  · refine hb.grows.trans ⟨List.prefix_rfl, rfl, rfl, fun d' q hd _ => if_neg fun e => hd e.1, ?_⟩
    intro d' q hn
    show (if _ then _ else _) ≠ none
    split
    · exact Option.some_ne_none _
    · exact hn
  · intro hk q hq
    exact (if_neg fun e => hq e.2).trans (hm d q hk)

theorem mapNewPage_ends {a : Frames} {d p : Nat} (h : Ready d a) (hp : p < 2^20) :
    Ends (fun _ b => Takes d 1 {p / 1024} a b ∧ b.At (frameAt a.uses.length) (.page d) ∧
        b.map d p = some (frameAt a.uses.length) ∧
        (d ≠ kernelDirectory → ∀ q, q ≠ p → b.map d q = a.map d q))
      (Exhausts d 1 {p / 1024} a) (mapNewPage d p a) := by
  have hu : ∀ d' j', Use.page d = .table d' j' →
      a.At d' .directory ∧ (a.isPagingEnabled = true → d' ≠ kernelDirectory) := by
    intro d' j' e
    cases e
  refine ((alloc_ends h.ok hu fun he => by have := h.length he; omega).imp (fun _ _ h => h) ?_).bind ?_
  · rintro e b ⟨he, hb, ha⟩
    refine ⟨he, hb, ?_⟩
    have hc : (a.slots d).card ≤ (a.slots d ∪ {p / 1024}).card :=
      Finset.card_le_card Finset.subset_union_left
    omega
  · rintro t b ⟨rfl, hb⟩
    have hslots : b.slots d = a.slots d :=
      slots_congr fun j => (hb.table d j).trans (table_push_other (by intro e; cases e))
    have hone : Takes d 1 ∅ a b :=
      ⟨hb.ok, hb.grows d, by rw [hslots, Finset.union_empty], by rw [hb.length, hslots]⟩
    have hat : b.At (frameAt a.uses.length) (.page d) := by
      refine ⟨a.uses.length, ?_, rfl⟩
      rw [hb.uses, List.getElem?_append_right (Nat.le_refl _), Nat.sub_self]
      rfl
    have hlt : a.uses.length < frameLimit := by
      have h1 := hb.ok.few
      rw [hb.length] at h1
      omega
    have hroom : b.isPagingEnabled = false → b.uses.length < frameLimit := by
      intro he
      rw [hb.enabled] at he
      have := h.length he
      rw [hb.length]
      omega
    have hx : frameAt a.uses.length % 4096 = 0 ∧ frameAt a.uses.length < 2^32 := by
      unfold frameLimit at hlt
      rw [frameAt_eq]
      omega
    have hmap := mapPage_ends hb.ok ((hb.grows d).at h.directory)
      (fun he => h.enabled (hb.enabled ▸ he)) hroom hp hx fun _ => .inr hat
    refine hmap.imp ?_ ?_
    · rintro _ c ⟨hc, hpage, helse⟩
      refine ⟨?_, hc.grows.at hat, hpage, ?_⟩
      · have := hone.trans hc
        rwa [Finset.empty_union] at this
      · intro hk q hq
        rw [helse hk q hq, hb.map d q hk]
    · intro e c hc
      have := hc.after hone
      rwa [Finset.empty_union] at this

/-! ## requests -/

/-- `b` is `a` after the request `r` for the directory `d` -/
structure Served (d : Nat) (r : Request) (a b : Frames) : Prop where
  takes : Takes d r.newPages {r.slot} a b
  mapped : b.map d r.page ≠ none
  kernel : ∀ vaddr physical, r = .kernelPage vaddr physical → b.map d r.page = some physical
  elsewhere : d ≠ kernelDirectory → ∀ q, q ≠ r.page → b.map d q = a.map d q

/-- a request the loader makes for the directory `d` -/
structure Proper (d : Nat) (r : Request) : Prop where
  valid : r.Valid
  identity : ∀ vaddr physical, r = .kernelPage vaddr physical → d ≠ kernelDirectory →
    KernelPage (vaddr / 4096) ∧ physical = vaddr

theorem served_newPage {a : Frames} {d : Nat} {r : Request} (h : Ready d a)
    (hserve : serve d r = mapNewPage d r.page) (hp : r.page < 2^20) (hn : r.newPages = 1) :
    Ends (fun _ b => Served d r a b) (Exhausts d r.newPages {r.slot} a) (serve d r a) := by
  rw [hserve, hn]
  refine (mapNewPage_ends h hp).imp ?_ fun _ _ h => h
  rintro _ b ⟨hb, -, hm, helse⟩
  refine ⟨hn ▸ hb, by rw [hm]; exact Option.some_ne_none _, ?_, helse⟩
  rintro vaddr physical rfl
  cases hn

theorem serve_ends {a : Frames} {d : Nat} {r : Request} (h : Ready d a) (hr : Proper d r) :
    Ends (fun _ b => Served d r a b) (Exhausts d r.newPages {r.slot} a) (serve d r a) := by
  have hv := hr.valid
  cases r with
  | firstPage vpage offset data =>
    exact served_newPage h rfl (Nat.div_lt_of_lt_mul hv.2.1) rfl
  | nextPage vaddr data => exact served_newPage h rfl (Nat.div_lt_of_lt_mul hv.2.1) rfl
  | stackPage vaddr => exact served_newPage h rfl (Nat.div_lt_of_lt_mul hv.2) rfl
  | kernelPage vaddr physical =>
    obtain ⟨ha, hlt, hx⟩ := hv
    have hroom : a.isPagingEnabled = false → a.uses.length < frameLimit := fun he => by
      have := h.length he
      omega
    have ho : d ≠ kernelDirectory →
        KernelPage (vaddr / 4096) ∧ physical = 4096 * (vaddr / 4096) ∨ a.At physical (.page d) := by
      intro hk
      obtain ⟨hp, rfl⟩ := hr.identity vaddr physical rfl hk
      exact .inl ⟨hp, by omega⟩
    refine (mapPage_ends h.ok h.directory h.enabled hroom (Nat.div_lt_of_lt_mul hlt) hx ho).imp ?_
      fun _ _ h => h
    rintro _ b ⟨hb, hm, helse⟩
    refine ⟨hb, by rw [Request.page, hm]; exact Option.some_ne_none _, ?_, helse⟩
    intro v x e
    injection e with e1 e2
    rw [Request.page, hm, e2]

def pagesOf (l : List Request) : Nat := (l.map Request.newPages).sum

def slotsOf (l : List Request) : Finset Nat := (l.map Request.slot).toFinset

/-- a list of requests; `I` is what the loop keeps, with the requests still to come -/
theorem requests_ends {d : Nat} {I : List Request → Frames → Prop}
    (hI : ∀ r l b c, Served d r b c → I (r :: l) b → I l c) {l : List Request} {a : Frames}
    (h : Ready d a) (hl : ∀ r ∈ l, Proper d r)
    (hn : a.isPagingEnabled = false → ∀ r ∈ l, r.newPages = 0) (ha : I l a) :
    Ends (fun _ b => Takes d (pagesOf l) (slotsOf l) a b ∧ I [] b)
      (Exhausts d (pagesOf l) (slotsOf l) a) (l.forM (serve d) a) := by
  induction l generalizing a with
  | nil => exact .ok ⟨.refl h.ok, ha⟩
  | cons r l ih =>
    have e : slotsOf (r :: l) = {r.slot} ∪ slotsOf l := by
      simp only [slotsOf, List.map_cons, List.toFinset_cons]
      rfl
    have e' : pagesOf (r :: l) = r.newPages + pagesOf l := by
      simp only [pagesOf, List.map_cons, List.sum_cons]
    rw [e, e']
    have hhead := serve_ends h (hl r List.mem_cons_self)
    refine takes_bind (hhead.imp (fun _ b hb => ⟨hb.takes, hb⟩) fun _ _ h => h) ?_
    intro _ b hb hs
    have hn' := fun he => hn he r List.mem_cons_self
    refine ih (h.next hb hn') (fun r hr => hl r (List.mem_cons_of_mem _ hr)) ?_ (hI r l a b hs ha)
    intro he r hr
    exact hn (hb.grows.enabled ▸ he) r (List.mem_cons_of_mem _ hr)

theorem pagesOf_append (l l' : List Request) : pagesOf (l ++ l') = pagesOf l + pagesOf l' := by
  rw [pagesOf, List.map_append, List.sum_append]
  rfl

theorem slotsOf_append (l l' : List Request) : slotsOf (l ++ l') = slotsOf l ∪ slotsOf l' := by
  rw [slotsOf, List.map_append, List.toFinset_append]
  rfl

theorem mem_slotsOf {l : List Request} {j : Nat} : j ∈ slotsOf l ↔ ∃ r ∈ l, r.slot = j := by
  rw [slotsOf, List.mem_toFinset, List.mem_map]

theorem pagesOf_one {l : List Request} (h : ∀ r ∈ l, r.newPages = 1) : pagesOf l = l.length := by
  rw [pagesOf, List.map_congr_left h, List.map_const', List.sum_replicate]
  exact Nat.mul_one _

theorem pagesOf_zero {l : List Request} (h : ∀ r ∈ l, r.newPages = 0) : pagesOf l = 0 := by
  rw [pagesOf, List.map_congr_left h, List.map_const', List.sum_replicate]
  exact Nat.mul_zero _

/-! ## one `execv` -/

/-- the 4MB slots of `Kernel_maps` -/
def kernelSlots : Finset Nat := {0} ∪ Finset.Icc 0x100 0x1FA

theorem kernelRequests_newPages : ∀ r ∈ kernelRequests, r.newPages = 0 := by
  intro r hr
  obtain ⟨p, -, rfl⟩ := (mem_kernelRequests r).mp hr
  rfl

theorem stackRequests_newPages : ∀ r ∈ stackRequests, r.newPages = 1 := by
  intro r hr
  obtain ⟨i, -, rfl⟩ := List.mem_map.mp hr
  rfl

theorem slotsOf_kernelRequests : slotsOf kernelRequests = kernelSlots := by
  ext j
  rw [mem_slotsOf, kernelSlots, Finset.mem_union, Finset.mem_singleton, Finset.mem_Icc]
  constructor
  · rintro ⟨r, hr, rfl⟩
    obtain ⟨p, hp, rfl⟩ := (mem_kernelRequests r).mp hr
    rw [kernelPage_iff] at hp
    have e : (Request.kernelPage (pageSize * p) (pageSize * p)).slot = p / 1024 := by
      show pageSize * p / 4096 / 1024 = _
      rw [pageSize_eq, Nat.mul_div_cancel_left p (by decide)]
    rw [e]
    omega
  · intro hj
    -- the last page of the slot that is a page of the kernel
    have hp : KernelPage (min (1024 * j + 1023) 0x7e804) := by
      rw [kernelPage_iff]
      omega
    refine ⟨_, (mem_kernelRequests _).mpr ⟨_, hp, rfl⟩, ?_⟩
    show pageSize * min (1024 * j + 1023) 0x7e804 / 4096 / 1024 = j
    rw [pageSize_eq]
    omega

theorem slotsOf_stackRequests : slotsOf stackRequests = {0x3f} := by
  ext j
  rw [mem_slotsOf, Finset.mem_singleton]
  constructor
  · rintro ⟨r, hr, rfl⟩
    obtain ⟨i, hi, rfl⟩ := List.mem_map.mp hr
    have hi := List.mem_range.mp hi
    simp only [userStackSize, pageSize_eq] at hi
    show (0x0ff00000 - pageSize - pageSize * i) / 4096 / 1024 = 0x3f
    rw [pageSize_eq]
    omega
  · rintro rfl
    exact ⟨_, List.mem_map.mpr ⟨0, List.mem_range.mpr (by decide), rfl⟩, rfl⟩

/-- what is asked for the program headers -/
def segmentRequests (f : File) : List Request := (segments f 0 f.header.ePhnum).1

/-- the frames a file needs: its directory, its pages with the stack, and its page tables -/
def framesOf (f : File) : Nat :=
  1 + ((segmentRequests f).length + 256) + (slotsOf (segmentRequests f) ∪ {0x3f} ∪ kernelSlots).card

theorem segmentRequests_newPages (f : File) : ∀ r ∈ segmentRequests f, r.newPages = 1 :=
  fun r hr => (segments_valid f _ _ r hr).2

theorem kernelRequests_proper (d : Nat) : ∀ r ∈ kernelRequests, Proper d r := by
  intro r hr
  obtain ⟨p, hp, rfl⟩ := (mem_kernelRequests r).mp hr
  have hp' := (kernelPage_iff p).mp hp
  refine ⟨?_, ?_⟩
  · show pageSize * p % 4096 = 0 ∧ pageSize * p < 2^32 ∧ pageSize * p % 4096 = 0 ∧ pageSize * p < 2^32
    rw [pageSize_eq]
    omega
  · intro vaddr physical e _
    injection e with e1 e2
    subst e1
    rw [pageSize_eq] at e2 ⊢
    rw [Nat.mul_div_cancel_left p (by decide)]
    exact ⟨hp, e2.symm⟩

/-- a request for a new page is proper for every directory -/
theorem proper_of_newPages {r : Request} (d : Nat) (hv : r.Valid) (hn : r.newPages = 1) : Proper d r := by
  refine ⟨hv, ?_⟩
  rintro vaddr physical rfl _
  cases hn

/-- `b` is `a` after the file is loaded into the directory `d` -/
structure Loaded (f : File) (d : Nat) (a b : Frames) : Prop where
  ok : b.Ok
  grows : Grows d a { b with directories := a.directories }
  fresh : d = frameAt a.uses.length
  length : b.uses.length = a.uses.length + framesOf f
  directories : b.directories = a.directories ++ [d]
  mapped : ∀ r ∈ segmentRequests f ++ stackRequests, b.map d r.page ≠ none
  kernel : ∀ p, KernelPage p → b.map d p = some (4096 * p)

/-- a list of requests, and the pages it maps -/
theorem mapped_ends {a : Frames} {d : Nat} {l : List Request} (h : Ready d a) (hl : ∀ r ∈ l, Proper d r)
    (hn : a.isPagingEnabled = false → ∀ r ∈ l, r.newPages = 0) :
    Ends (fun _ b => Takes d (pagesOf l) (slotsOf l) a b ∧ ∀ r ∈ l, b.map d r.page ≠ none)
      (Exhausts d (pagesOf l) (slotsOf l) a) (l.forM (serve d) a) := by
  have hI : ∀ r l' b c, Served d r b c → (∀ q ∈ l, q ∈ r :: l' ∨ b.map d q.page ≠ none) →
      ∀ q ∈ l, q ∈ l' ∨ c.map d q.page ≠ none := by
    intro r l' b c hs hb q hq
    rcases hb q hq with hq | hq
    · rcases List.mem_cons.mp hq with rfl | hq
      · exact .inr hs.mapped
      · exact .inl hq
    · exact .inr (hs.takes.grows.defined _ _ hq)
  refine (requests_ends (I := fun l' b => ∀ q ∈ l, q ∈ l' ∨ b.map d q.page ≠ none) hI h hl
    hn fun q hq => .inl hq).imp ?_ fun _ _ h => h
  rintro _ b ⟨hb, hm⟩
  exact ⟨hb, fun r hr => (hm r hr).resolve_left List.not_mem_nil⟩

/-- the pages of the kernel that are not still to come are mapped to themselves -/
def KernelMapped (d : Nat) (l : List Request) (b : Frames) : Prop :=
  (∀ q ∈ l, q ∈ kernelRequests) ∧
    ∀ p, KernelPage p → .kernelPage (pageSize * p) (pageSize * p) ∈ l ∨ b.map d p = some (4096 * p)

theorem kernelMapped_served {d : Nat} (hk : d ≠ kernelDirectory) {r : Request} {l : List Request}
    {b c : Frames} (hs : Served d r b c) (hb : KernelMapped d (r :: l) b) : KernelMapped d l c := by
  refine ⟨fun q hq => hb.1 q (List.mem_cons_of_mem _ hq), fun p hp => ?_⟩
  obtain ⟨q, -, rfl⟩ := (mem_kernelRequests r).mp (hb.1 r List.mem_cons_self)
  have hpage : (Request.kernelPage (pageSize * q) (pageSize * q)).page = q :=
    Nat.mul_div_cancel_left q (by decide)
  have hq := hs.kernel _ _ rfl
  have helse := hs.elsewhere hk p
  rw [hpage] at hq helse
  by_cases hpq : p = q
  · subst hpq
    exact .inr hq
  · rw [helse hpq]
    refine (hb.2 p hp).imp_left fun hl => (List.mem_cons.mp hl).resolve_left fun e => hpq ?_
    injection e with e1 _
    rw [pageSize_eq] at e1
    omega

/-- the pages of the kernel, in the directory of a process -/
theorem kernelPages_ends {a : Frames} {d : Nat} (h : Ready d a) (he : a.isPagingEnabled = true) :
    Ends (fun _ b => Takes d 0 kernelSlots a b ∧ ∀ p, KernelPage p → b.map d p = some (4096 * p))
      (Exhausts d 0 kernelSlots a) (kernelRequests.forM (serve d) a) := by
  have hends := requests_ends (I := KernelMapped d)
    (fun r l b c => kernelMapped_served (h.enabled he)) h (kernelRequests_proper d)
    (fun hf => absurd (he.symm.trans hf) (by decide))
    ⟨fun q hq => hq, fun p hp => .inl ((mem_kernelRequests _).mpr ⟨p, hp, rfl⟩)⟩
  rw [pagesOf_zero kernelRequests_newPages, slotsOf_kernelRequests] at hends
  refine hends.imp ?_ fun _ _ h => h
  rintro _ b ⟨hb, -, hm⟩
  exact ⟨hb, fun p hp => (hm p hp).resolve_left List.not_mem_nil⟩

theorem forM_serve_append (d : Nat) (l l' : List Request) :
    (l ++ l').forM (serve d) = (l.forM (serve d) >>= fun _ => l'.forM (serve d)) :=
  List.forM_append

theorem load_accepted {f : File} (h : Accepted f) :
    load f = (alloc .directory >>= fun d =>
      ((segmentRequests f ++ stackRequests).forM (serve d) >>= fun _ => kernelRequests.forM (serve d))
        >>= fun _ => loaded d) := by
  have hn : (plan f).2 = none := h
  have e : (plan f).1 = segmentRequests f ++ stackRequests ++ kernelRequests := by
    rw [plan_accepted h, List.append_assoc]
    rfl
  unfold load
  rw [e, hn]
  refine congrArg (alloc .directory >>= ·) (funext fun d => ?_)
  exact congrArg (· >>= fun _ => loaded d) (forM_serve_append d _ _)

theorem pageRequests_proper {f : File} (h : Accepted f) (d : Nat) :
    ∀ r ∈ segmentRequests f ++ stackRequests, Proper d r := by
  intro r hr
  have hv : r.Valid := by
    apply plan_valid f
    rw [plan_accepted h, ← List.append_assoc]
    exact List.mem_append_left _ hr
  refine proper_of_newPages d hv ?_
  rcases List.mem_append.mp hr with hr | hr
  · exact segmentRequests_newPages f r hr
  · exact stackRequests_newPages r hr

theorem plan_proper {f : File} (h : Accepted f) (d : Nat) : ∀ r ∈ (plan f).1, Proper d r := by
  intro r hr
  rw [plan_accepted h, ← List.append_assoc] at hr
  rcases List.mem_append.mp hr with hr | hr
  · exact pageRequests_proper h _ r hr
  · exact kernelRequests_proper _ r hr

theorem pageRequests_pages (f : File) :
    pagesOf (segmentRequests f ++ stackRequests) = (segmentRequests f).length + 256 := by
  have h : stackRequests.length = 256 := by
    rw [stackRequests, List.length_map, List.length_range]
    rfl
  rw [pagesOf_append, pagesOf_one (segmentRequests_newPages f), pagesOf_one stackRequests_newPages, h]

/-- a new directory joins those of the processes -/
theorem ok_loaded {a : Frames} {d : Nat} (h : a.Ok) (hd : a.At d .directory) (hk : d ≠ kernelDirectory)
    (hnew : d ∉ a.directories) : Ok { a with directories := a.directories ++ [d] } := by
  refine ⟨h.kernel, h.owner, h.dom, h.physical, h.own, h.few, h.kernelTables, ?_, ?_⟩
  · intro d' hd'
    rcases List.mem_append.mp hd' with hd' | hd'
    · exact h.processes d' hd'
    · rw [List.mem_singleton.mp hd']
      exact ⟨hd, hk⟩
  · refine List.nodup_append.mpr ⟨h.nodup, List.nodup_singleton _, ?_⟩
    rintro d' hd' d'' hd'' rfl
    rw [List.mem_singleton.mp hd''] at hd'
    exact hnew hd'

/-- the directory of a process is ready once it is taken -/
theorem ready_directory {a b : Frames} (h : a.Ok) (he : a.isPagingEnabled = true)
    (hb : Took .directory a b) : Ready (frameAt a.uses.length) b := by
  refine ⟨hb.ok, ⟨a.uses.length, ?_, rfl⟩, fun _ e => h.kernel.fresh e.symm, fun hn => ?_⟩
  · rw [hb.uses, List.getElem?_append_right (Nat.le_refl _), Nat.sub_self]
    rfl
  · rw [hb.enabled, he] at hn
    cases hn

theorem load_ends {a : Frames} {f : File} (h : a.Ok) (he : a.isPagingEnabled = true) (hf : Accepted f) :
    Ends (fun _ b => Loaded f (frameAt a.uses.length) a b)
      (fun _ b => b.uses.length = frameLimit ∧ frameLimit < a.uses.length + framesOf f) (load f a) := by
  have hu : ∀ d j, Use.directory = .table d j →
      a.At d .directory ∧ (a.isPagingEnabled = true → d ≠ kernelDirectory) := by
    intro d j e
    cases e
  have hframes : framesOf f = 1 + pagesOf (segmentRequests f ++ stackRequests) + (slotsOf
      (segmentRequests f ++ stackRequests) ∪ kernelSlots).card := by
    rw [pageRequests_pages, slotsOf_append, slotsOf_stackRequests]
    rfl
  rw [load_accepted hf]
  refine ((alloc_ends h hu fun hn => absurd (he.symm.trans hn) (by decide)).imp (fun _ _ h => h) ?_).bind ?_
  · rintro e b ⟨-, hb, ha⟩
    exact ⟨hb, by omega⟩
  rintro d b ⟨rfl, hb⟩
  have hbe : b.isPagingEnabled = true := hb.enabled.trans he
  have hready := ready_directory h he hb
  -- the new directory has no table yet
  have hslots : b.slots (frameAt a.uses.length) = ∅ := by
    refine Finset.filter_eq_empty_iff.mpr fun j _ hj => ?_
    obtain ⟨t, ht⟩ := Option.isSome_iff_exists.mp hj
    rw [hb.table, table_push_other (by intro e; cases e)] at ht
    exact (h.owner _ _ _ (at_of_table ht)).fresh rfl
  have hpages := mapped_ends hready (pageRequests_proper hf (frameAt a.uses.length))
    fun hn => absurd (hbe.symm.trans hn) (by decide)
  have hboth := takes_bind hpages (f := fun _ => kernelRequests.forM (serve (frameAt a.uses.length)))
    fun _ c hc hm => (kernelPages_ends (hready.next hc fun hn => absurd (hbe.symm.trans hn) (by decide))
      (hc.grows.enabled.trans hbe)).imp (fun _ c' hc' => (⟨hc'.1, fun r hr =>
        hc'.1.grows.defined _ _ (hm r hr), hc'.2⟩ : _ ∧ (∀ r ∈ segmentRequests f ++ stackRequests,
          c'.map (frameAt a.uses.length) r.page ≠ none) ∧
          ∀ p, KernelPage p → c'.map (frameAt a.uses.length) p = some (4096 * p))) fun _ _ h => h
  refine (hboth.imp (fun _ _ h => h) ?_).bind ?_
  · rintro e c ⟨-, hc, hlt⟩
    rw [hslots, Finset.empty_union, hb.length, Finset.card_empty] at hlt
    exact ⟨hc, by omega⟩
  · rintro _ c ⟨hc, hm, hk⟩
    have hlen := hc.length
    rw [hc.slots, hslots, Finset.empty_union, hb.length, Finset.card_empty] at hlen
    have hcd : c.directories = a.directories := hc.grows.directories.trans hb.directories
    have hnew : frameAt a.uses.length ∉ c.directories := fun hd =>
      (h.processes _ (hcd ▸ hd)).1.fresh rfl
    have hg := (hb.grows (frameAt a.uses.length)).trans hc.grows
    refine .ok ⟨ok_loaded hc.ok (hc.grows.at hready.directory) (hready.enabled hbe) hnew,
      ⟨hg.uses, hg.enabled, rfl, hg.others, hg.defined⟩, rfl, ?_, ?_, hm, hk⟩
    · show c.uses.length = _
      omega
    · show c.directories ++ _ = _
      rw [hcd]

/-! ## the kernel's directory -/

/-- paging is set up -/
structure Booted (a : Frames) : Prop where
  ok : a.Ok
  enabled : a.isPagingEnabled = true
  length : a.uses.length = 254
  directories : a.directories = []

theorem ok_first : (boot.push .directory).Ok := by
  have htable : ∀ t d j, ¬ (boot.push .directory).At t (.table d j) := by
    intro t d j h
    rcases at_push.mp h with ⟨i, hi, -⟩ | ⟨-, e⟩
    · cases hi
    · cases e
  refine ⟨at_push.mpr (.inr ⟨rfl, rfl⟩), fun t d j h => absurd h (htable t d j), fun _ _ _ => rfl, ?_, ?_,
    by decide, ?_, ?_, List.nodup_nil⟩
  · intro d p x h
    cases h
  · intro d p x _ h
    cases h
  · intro h
    cases h
  · intro d hd
    cases hd

/-- with these slots the kernel has a table for a page of the pool exactly below `frameLimit` -/
theorem ok_enabled {a : Frames} (h : a.Ok) (hs : a.slots kernelDirectory = kernelSlots ∪ {0x80}) :
    Ok { a with isPagingEnabled := true } := by
  refine ⟨h.kernel, h.owner, h.dom, h.physical, h.own, h.few, ?_, h.processes, h.nodup⟩
  intro _ i hi
  show (a.table kernelDirectory (frameAt i / 4194304)).isSome = true ↔ _
  have hlt : frameAt i / 4194304 < 1024 := by
    unfold frameLimit at hi
    rw [frameAt_eq]
    omega
  have hmem : (a.table kernelDirectory (frameAt i / 4194304)).isSome = true ↔
      frameAt i / 4194304 ∈ a.slots kernelDirectory := by
    rw [slots, Finset.mem_filter, Finset.mem_range]
    exact ⟨fun h => ⟨hlt, h⟩, fun h => h.2⟩
  rw [hmem, hs, kernelSlots, Finset.mem_union, Finset.mem_union, Finset.mem_singleton,
    Finset.mem_singleton, Finset.mem_Icc, frameAt_eq]
  unfold frameLimit
  omega

theorem kernelSlots_card : kernelSlots.card = 252 := by
  have hnot : 0 ∉ Finset.Icc 0x100 0x1FA := by
    rw [Finset.mem_Icc]
    omega
  rw [kernelSlots, Finset.card_union_of_disjoint (Finset.disjoint_singleton_left.mpr hnot),
    Finset.card_singleton, Nat.card_Icc]

/-- the request that tests paging -/
def testRequest : Request :=
  .kernelPage Loader.notUsedMemoryStart (Loader.notUsedMemoryStart + pageSize)

theorem alloc_first : alloc .directory boot = .ok kernelDirectory (boot.push .directory) :=
  alloc_ok (a := boot) (b := boot) .directory rfl

theorem slots_first : (boot.push .directory).slots kernelDirectory = ∅ := by
  refine Finset.filter_eq_empty_iff.mpr fun j _ hj => ?_
  rw [table_push_other (by intro e; cases e)] at hj
  cases hj

theorem length_first : (boot.push .directory).uses.length = 1 := rfl

theorem ready_first : Ready kernelDirectory (boot.push .directory) := by
  refine ⟨ok_first, ok_first.kernel, fun h => ?_, fun _ => ?_⟩
  · cases h
  · rw [slots_first, length_first, Finset.card_empty]

theorem proper_test : Proper kernelDirectory testRequest :=
  ⟨by unfold testRequest Request.Valid; decide, fun _ _ _ h => absurd rfl h⟩

/-- the pages of the kernel, in its own directory -/
theorem kernelMaps_ends : Ends (fun _ b => Takes kernelDirectory 0 kernelSlots (boot.push .directory) b ∧
      ∀ r ∈ kernelRequests, b.map kernelDirectory r.page ≠ none)
    (fun _ _ => False) (kernelRequests.forM (serve kernelDirectory) (boot.push .directory)) := by
  have hmaps := mapped_ends ready_first (kernelRequests_proper _) fun _ => kernelRequests_newPages
  rw [pagesOf_zero kernelRequests_newPages, slotsOf_kernelRequests] at hmaps
  refine hmaps.imp (fun _ b hb => hb) ?_
  rintro _ b ⟨-, -, hlt⟩
  rw [slots_first, Finset.empty_union, length_first, kernelSlots_card, frameLimit] at hlt
  omega

/-- with the test page the kernel's directory takes 254 frames -/
theorem test_ends {b : Frames} (hb : Takes kernelDirectory 0 kernelSlots (boot.push .directory) b) :
    Ends (fun _ c => c.uses.length = 254 ∧ c.directories = [] ∧ Ok { c with isPagingEnabled := true })
      (fun _ _ => False) (serve kernelDirectory testRequest b) := by
  have hslot : testRequest.slot = 0x80 := rfl
  have hnew : testRequest.newPages = 0 := rfl
  have hcard : (kernelSlots ∪ {0x80}).card = 253 := by
    have hnot : 0x80 ∉ kernelSlots := by
      rw [kernelSlots, Finset.mem_union, Finset.mem_singleton, Finset.mem_Icc]
      omega
    rw [Finset.card_union_of_disjoint (Finset.disjoint_singleton_right.mpr hnot), kernelSlots_card,
      Finset.card_singleton]
  refine (serve_ends (ready_first.next hb fun _ => rfl) proper_test).imp ?_ ?_
  · intro _ c hc
    have hall := hb.trans hc.takes
    have hs : c.slots kernelDirectory = kernelSlots ∪ {0x80} := by
      rw [hall.slots, slots_first, hslot, Finset.empty_union]
    have hl := hall.length
    rw [hs, slots_first, length_first, hnew, hcard, Finset.card_empty] at hl
    exact ⟨hl, hall.grows.directories, ok_enabled hall.ok hs⟩
  · intro _ c hc
    obtain ⟨-, -, hlt⟩ := hc.after hb
    rw [hslot, slots_first, Finset.empty_union, length_first, hnew, hcard, frameLimit] at hlt
    omega

/-- what is mapped before paging is enabled -/
theorem ksetup_enabled {b c : Frames}
    (hb : kernelRequests.forM (serve kernelDirectory) (boot.push .directory) = .ok ⟨⟩ b)
    (hc : serve kernelDirectory testRequest b = .ok ⟨⟩ c) : Ok { c with isPagingEnabled := true } :=
  ((test_ends (kernelMaps_ends.of_ok hb).1).of_ok hc).2.2

theorem ksetup_ends : Ends (fun _ b => Booted b) (fun _ _ => False) (ksetupKernelPaging boot) := by
  unfold ksetupKernelPaging
  rw [bind_ok alloc_first]
  refine kernelMaps_ends.bind fun _ b hb => ?_
  refine (test_ends hb.1).bind fun _ c hc => ?_
  exact .ok ⟨hc.2.2, rfl, hc.1, hc.2.1⟩

/-! ## any number of `execv` -/

/-- the directory of a process that is loaded -/
structure Complete (d : Nat) (a : Frames) : Prop where
  kernel : ∀ p, KernelPage p → a.map d p = some (4096 * p)
  stack : ∀ r ∈ stackRequests, a.map d r.page ≠ none

/-- the frames the kernel and the processes need -/
def framesNeeded (files : List File) : Nat := 254 + (files.map framesOf).sum

/-- what holds between two calls of `execv`, `files` being still to come and `total` needed in all -/
structure Between (total count : Nat) (files : List File) (a : Frames) : Prop where
  ok : a.Ok
  enabled : a.isPagingEnabled = true
  length : a.uses.length + (files.map framesOf).sum = total
  loaded : a.directories.length + files.length = count
  complete : ∀ d ∈ a.directories, Complete d a
  accepted : ∀ f ∈ files, Accepted f

theorem between_load {total count : Nat} {f : File} {files : List File} {a b : Frames}
    (h : Between total count (f :: files) a) (hb : Loaded f (frameAt a.uses.length) a b) :
    Between total count files b := by
  have hlen := h.length
  have hcount := h.loaded
  rw [List.map_cons, List.sum_cons] at hlen
  rw [List.length_cons] at hcount
  refine ⟨hb.ok, hb.grows.enabled.trans h.enabled, ?_, ?_, ?_,
    fun g hg => h.accepted g (List.mem_cons_of_mem _ hg)⟩
  · rw [hb.length]
    omega
  · rw [hb.directories, List.length_append, List.length_singleton]
    omega
  · intro d hd
    rw [hb.directories] at hd
    rcases List.mem_append.mp hd with hd | hd
    · -- a process loaded before
      have hne := (h.ok.processes d hd).1.fresh
      have hk := (h.ok.processes d hd).2
      have hc := h.complete d hd
      refine ⟨fun p hp => ?_, fun r hr => ?_⟩
      · exact (hb.grows.others d p hne hk).trans (hc.kernel p hp)
      · exact (hb.grows.others d r.page hne hk).trans_ne (hc.stack r hr)
    · rw [List.mem_singleton.mp hd]
      exact ⟨hb.kernel, fun r hr => hb.mapped r (List.mem_append_right _ hr)⟩

theorem run_ends {files : List File} (hf : ∀ f ∈ files, Accepted f) :
    Ends (fun _ b => Between (framesNeeded files) files.length [] b)
      (fun _ b => b.uses.length = frameLimit ∧ frameLimit < framesNeeded files) (run files boot) := by
  refine (ksetup_ends.imp (fun _ _ h => h) fun _ _ h => absurd h (by simp)).bind ?_
  intro _ a ha
  have hload : ∀ f l b, Between (framesNeeded files) files.length (f :: l) b →
      Ends (fun _ c => Between (framesNeeded files) files.length l c)
        (fun _ c => c.uses.length = frameLimit ∧ frameLimit < framesNeeded files) (load f b) := by
    intro f l b hb
    refine (load_ends hb.ok hb.enabled (hb.accepted f List.mem_cons_self)).imp
      (fun _ c hc => between_load hb hc) ?_
    rintro _ c ⟨hc, hlt⟩
    have hlen := hb.length
    rw [List.map_cons, List.sum_cons] at hlen
    exact ⟨hc, by omega⟩
  refine Ends.forM hload ⟨ha.ok, ha.enabled, ?_, ?_, ?_, hf⟩
  · rw [ha.length]
    rfl
  · rw [ha.directories]
    exact Nat.zero_add _
  · intro d hd
    rw [ha.directories] at hd
    exact absurd hd List.not_mem_nil

end Frames

end StarOS
