import StarOS.Exec.Count

/-!
# The loader refines the frames

`Shape s a`: the memory of the loader `s` holds the frames `a`.  Entry `j` of a directory shows the
table of slot `j`, entry `k` of a table shows what page `1024 * j + k` is mapped to; the entries of a
process are of the user level, those of the kernel's directory are not.

* `Holds.walk`         the walk of a directory gives its map;
* `shape_point`, `shape_push`, `shape_table`, `shape_bytes`   the four ways to change the memory;
* `alike_serve`, `alike_load`, `alike_run`   the loader goes the way the frames go, and keeps `Shape`.
-/

namespace StarOS
open Lib Frames

/-- what an entry of a directory or table says -/
def PTE.Maps (e : PTE) (userLevel : Bool) : Option Nat → Prop
  | none => e.p = false
  | some x => e = PTE.decode (PTE.present userLevel x).encode

theorem PTE.Maps.p {e : PTE} {userLevel : Bool} {o : Option Nat} (h : PTE.Maps e userLevel o) :
    e.p = o.isSome := by
  cases o with
  | none => exact h
  | some x =>
    have h : e = _ := h
    rw [h, PTE.present_p]
    rfl

theorem PTE.Maps.table {e : PTE} {userLevel : Bool} {t : Nat} (h : PTE.Maps e userLevel (some t))
    (ha : t % 4096 = 0) (hlt : t < 2^32) : e.table = t := by
  have h : e = _ := h
  rw [h]
  exact present_table userLevel ha hlt

/-- the pages of process directories are of the user level -/
def userLevel (d : Nat) : Bool := d != kernelDirectory

theorem userLevel_kernel : userLevel kernelDirectory = false := bne_self_eq_false _

structure Shape (s : Loader) (a : Frames) : Prop where
  ok : a.Ok
  free : s.paging.freeMemoryPage = frameAt a.uses.length
  log : s.handedOut = (List.range a.uses.length).map frameAt
  kernel : s.kernelPagingDirectory = kernelDirectory
  enabled : s.isPagingEnabled = a.isPagingEnabled
  directories : s.directories = a.directories
  slot : ∀ d, a.At d .directory → ∀ j < 1024, PTE.Maps (s.paging.entry d j) (userLevel d) (a.table d j)
  leaf : ∀ d j t, a.table d j = some t → ∀ k < 1024,
    PTE.Maps (s.paging.entry t k) (userLevel d) (a.map d (1024 * j + k))

theorem At.lt32 {a : Frames} (h : a.Ok) {t : Nat} {u : Use} (ht : a.At t u) : t < 2^32 := by
  have h1 := ht.lt
  have h2 := h.few
  rw [frameAt_eq] at h1
  unfold frameLimit at h2
  omega

/-! ## the walk -/

/-- the memory holds the map of the directory `d` -/
structure Holds (a : Frames) (paging : Paging) (d : Nat) : Prop where
  slot : ∀ j < 1024, PTE.Maps (paging.entry d j) (userLevel d) (a.table d j)
  leaf : ∀ j t, a.table d j = some t → ∀ k < 1024,
    PTE.Maps (paging.entry t k) (userLevel d) (a.map d (1024 * j + k))

theorem Shape.holds {s : Loader} {a : Frames} (h : Shape s a) {d : Nat} (hd : a.At d .directory) :
    Holds a s.paging d :=
  ⟨h.slot d hd, h.leaf d⟩

/-- the entries of the directory and of its tables are the same -/
theorem Holds.congr {a : Frames} {paging paging' : Paging} {d : Nat} (h : Holds a paging d)
    (hd : ∀ j < 1024, paging'.entry d j = paging.entry d j)
    (ht : ∀ t j, a.At t (.table d j) → ∀ k < 1024, paging'.entry t k = paging.entry t k) :
    Holds a paging' d := by
  refine ⟨fun j hj => ?_, fun j t hjt k hk => ?_⟩
  · rw [hd j hj]
    exact h.slot j hj
  · rw [ht t j (at_of_table hjt) k hk]
    exact h.leaf j t hjt k hk

theorem Holds.walk {a : Frames} {paging : Paging} {d x : Nat} (h : Holds a paging d) (hok : a.Ok)
    (hx : x < 2^32) : checkAddressMapping paging x d = (a.map d (x / 4096)).map (· + x % 4096) := by
  have hslot := h.slot _ (dirIndex_lt hx)
  have e : dirIndex x = x / 4096 / 1024 := by
    rw [dirIndex_eq]
    omega
  have ek : 1024 * (x / 4096 / 1024) + tableIndex x = x / 4096 := by
    rw [tableIndex_eq]
    omega
  cases ht : a.table d (x / 4096 / 1024) with
  | none =>
    rw [e, ht] at hslot
    rw [walk_absent (by rw [e]; exact hslot.p), hok.dom d _ ht]
    rfl
  | some t =>
    rw [e, ht] at hslot
    have hat := at_of_table ht
    rw [walk_present (by rw [e]; exact hslot.p), e, hslot.table hat.aligned (At.lt32 hok hat)]
    have hleaf := h.leaf _ t ht _ (tableIndex_lt x)
    rw [ek] at hleaf
    cases hm : a.map d (x / 4096) with
    | none =>
      rw [hm] at hleaf
      rw [Paging.leaf, if_neg (by rw [hleaf.p]; decide)]
      rfl
    | some y =>
      obtain ⟨hy, hlt⟩ := hok.physical d _ y hm
      rw [hm] at hleaf
      have he : paging.entry t (tableIndex x) = _ := hleaf
      rw [Paging.leaf, he, if_pos (PTE.present_p _ _), PTE.present_address _ hlt hy]
      rfl

theorem Shape.walk {s : Loader} {a : Frames} (h : Shape s a) {d x : Nat} (hd : a.At d .directory)
    (hx : x < 2^32) :
    checkAddressMapping s.paging x d = (a.map d (x / 4096)).map (· + x % 4096) :=
  (h.holds hd).walk h.ok hx

/-! ## changes of the memory -/

/-- mapping a page that has a table -/
theorem shape_point {s : Loader} {a : Frames} (h : Shape s a) {d p x t : Nat}
    (ht : a.table d (p / 1024) = some t) (hok : (a.point d p x).Ok) :
    Shape { s with paging := s.paging.setEntry t (p % 1024) (PTE.present (userLevel d) x) }
      (a.point d p x) := by
  have hat := at_of_table ht
  refine ⟨hok, h.free, h.log, h.kernel, h.enabled, h.directories, ?_, ?_⟩
  · intro d' hd' j hj
    have hne : d' ≠ t := At.ne hd' hat (by intro e; cases e)
    show PTE.Maps ((s.paging.setEntry _ _ _).entry d' j) _ _
    rw [entry_setEntry_frame _ hd'.aligned hat.aligned hne hj (Nat.mod_lt _ (by decide))]
    exact h.slot d' hd' j hj
  · intro d' j t' ht' k hk
    change a.table d' j = some t' at ht'
    show PTE.Maps ((s.paging.setEntry _ _ _).entry t' k) _ _
    rw [map_point]
    by_cases hp : d' = d ∧ 1024 * j + k = p
    · obtain ⟨rfl, rfl⟩ := hp
      have e1 : (1024 * j + k) / 1024 = j := by omega
      have e2 : (1024 * j + k) % 1024 = k := by omega
      rw [e1, ht'] at ht
      obtain rfl := Option.some.inj ht
      rw [if_pos ⟨rfl, rfl⟩, e2]
      exact entry_setEntry _ _ _ _
    · rw [if_neg hp]
      have hleaf := h.leaf d' j t' ht' k hk
      by_cases htt : t' = t
      · -- another entry of the same table
        obtain ⟨hd', hj⟩ := table_inj (htt ▸ ht') ht
        have hk' : k ≠ p % 1024 := fun e => hp ⟨hd', by omega⟩
        rw [htt] at hleaf ⊢
        rw [entry_setEntry_apart _ _ (by omega)]
        exact hleaf
      · rw [entry_setEntry_frame _ (at_of_table ht').aligned hat.aligned htt hk (Nat.mod_lt _ (by decide))]
        exact hleaf

/-- a frame with another use does not change when the memory changes inside a page of a process -/
theorem entry_of_bytes {a : Frames} {paging : Paging} {d t t' : Nat} {u : Use} (hat : a.At t (.page d))
    (ht' : a.At t' u) (hu : u ≠ .page d) {m : Mem}
    (hm : ∀ x, x < t ∨ t + 4096 ≤ x → m x = paging.mem x) :
    ∀ k < 1024, Paging.entry { paging with mem := m } t' k = paging.entry t' k := by
  intro k hk
  have hne := At.ne ht' hat hu
  have h1 := ht'.aligned
  have h2 := hat.aligned
  exact entry_congr (fun x _ _ => hm x (by omega)) hk

/-- the memory changes inside a page of a process only -/
theorem shape_bytes {s : Loader} {a : Frames} (h : Shape s a) {d t : Nat} (hat : a.At t (.page d))
    {m : Mem} (hm : ∀ x, x < t ∨ t + 4096 ≤ x → m x = s.paging.mem x) :
    Shape { s with paging := { s.paging with mem := m } } a := by
  refine ⟨h.ok, h.free, h.log, h.kernel, h.enabled, h.directories, ?_, ?_⟩
  · intro d' hd' j hj
    show PTE.Maps (Paging.entry { s.paging with mem := m } d' j) _ _
    rw [entry_of_bytes hat hd' (by intro e; cases e) hm j hj]
    exact h.slot d' hd' j hj
  · intro d' j t' ht' k hk
    show PTE.Maps (Paging.entry { s.paging with mem := m } t' k) _ _
    rw [entry_of_bytes hat (at_of_table ht') (by intro e; cases e) hm k hk]
    exact h.leaf d' j t' ht' k hk

theorem Shape.allocPage {s : Loader} {a : Frames} (h : Shape s a) (hlt : a.uses.length < frameLimit) :
    allocPage s.paging = (frameAt a.uses.length,
      ⟨zeromem s.paging.mem (frameAt a.uses.length) 4096, frameAt (a.uses.length + 1)⟩) := by
  have hf := h.free
  have e : frameAt a.uses.length + 4096 = frameAt (a.uses.length + 1) := by
    rw [frameAt_eq, frameAt_eq]
    omega
  unfold frameLimit at hlt
  rw [allocPage_eq, hf, e]
  · rw [hf, frameAt_eq]
    omega
  · rw [hf, frameAt_eq]
    omega

/-- one frame more, which is no page table -/
theorem shape_push {s : Loader} {a : Frames} (h : Shape s a) (hlt : a.uses.length < frameLimit) {u : Use}
    (hu : ∀ d j, u ≠ .table d j) (hok : (a.push u).Ok) : Shape s.handOut (a.push u) := by
  have halloc := h.allocPage hlt
  have htable : ∀ d j, (a.push u).table d j = a.table d j := fun d j => table_push_other (hu d j)
  have hold : ∀ t v, a.At t v → ∀ k < 1024, s.handOut.paging.entry t k = s.paging.entry t k := by
    intro t v ht k hk
    show (allocPage s.paging).2.entry t k = _
    rw [halloc]
    refine entry_congr (fun x h1 h2 => ?_) hk
    have := ht.lt
    show zeromem _ _ _ x = _
    rw [zeromem_apply, if_neg (by omega)]
  refine ⟨hok, ?_, ?_, h.kernel, h.enabled, h.directories, ?_, ?_⟩
  · show (allocPage s.paging).2.freeMemoryPage = frameAt (a.uses ++ [u]).length
    rw [halloc, List.length_append, List.length_singleton]
  · show s.handedOut ++ [(allocPage s.paging).1] = (List.range (a.uses ++ [u]).length).map frameAt
    rw [halloc, h.log, List.length_append, List.length_singleton, List.range_succ, List.map_append]
    rfl
  · intro d hd j hj
    rw [htable]
    rcases at_push.mp hd with hd | ⟨rfl, -⟩
    · rw [hold d _ hd j hj]
      exact h.slot d hd j hj
    · -- the new directory is empty
      have hn : a.table (frameAt a.uses.length) j = none := by
        cases ht : a.table (frameAt a.uses.length) j with
        | none => rfl
        | some t => exact absurd rfl (h.ok.owner _ _ _ (at_of_table ht)).fresh
      rw [hn]
      show ((allocPage s.paging).2.entry _ j).p = false
      rw [halloc, ← h.free]
      exact entry_allocPage_new _ hj
  · intro d j t ht k hk
    rw [htable] at ht
    rw [hold t _ (at_of_table ht) k hk]
    exact h.leaf d j t ht k hk

/-- an empty frame becomes a page table -/
theorem shape_table {s : Loader} {a : Frames} {d j : Nat} (h : Shape s (a.push (.page d)))
    (ha : a.Ok) (hd : a.At d .directory) (hj : j < 1024) (hn : a.table d j = none)
    (hok : (a.push (.table d j)).Ok)
    (hzero : ∀ k < 1024, (s.paging.entry (frameAt a.uses.length) k).p = false) :
    Shape { s with paging := s.paging.setEntry d j (PTE.present (userLevel d) (frameAt a.uses.length)) }
      (a.push (.table d j)) := by
  have hpage : ∀ d' j', (a.push (.page d)).table d' j' = a.table d' j' := fun d' j' =>
    table_push_other (by intro e; cases e)
  have hother : ∀ t u, t ≠ d → (a.push (.table d j)).At t u → ∀ k < 1024,
      (s.paging.setEntry d j (PTE.present (userLevel d) (frameAt a.uses.length))).entry t k
        = s.paging.entry t k := fun t u hne ht k hk =>
    entry_setEntry_frame _ ht.aligned hd.aligned hne hk hj
  refine ⟨hok, ?_, ?_, h.kernel, h.enabled, h.directories, ?_, ?_⟩
  · have hfree := h.free
    rw [push, List.length_append, List.length_singleton] at hfree ⊢
    exact hfree
  · have hlog := h.log
    rw [push, List.length_append, List.length_singleton] at hlog ⊢
    exact hlog
  · intro d' hd' j' hj'
    have hd'' : a.At d' .directory := by
      rcases at_push.mp hd' with hd' | ⟨-, e⟩
      · exact hd'
      · cases e
    have hslot := h.slot d' (at_push.mpr (.inl hd'')) j' hj'
    rw [hpage] at hslot
    show PTE.Maps ((s.paging.setEntry _ _ _).entry d' j') _ _
    by_cases hdd : d' = d
    · subst hdd
      by_cases hjj : j' = j
      · subst hjj
        rw [table_push_self hn]
        exact entry_setEntry _ _ _ _
      · rw [table_push_other (by intro e; injection e with _ e; exact hjj e.symm),
          entry_setEntry_apart _ _ (by omega)]
        exact hslot
    · rw [table_push_other (by intro e; injection e with e _; exact hdd e.symm),
        hother d' _ hdd hd' j' hj']
      exact hslot
  · intro d' j' t ht k hk
    have hat := at_of_table ht
    have hne : t ≠ d := At.ne hat (at_push.mpr (.inl hd)) (by intro e; cases e)
    show PTE.Maps ((s.paging.setEntry _ _ _).entry t k) _ _
    rw [hother t _ hne hat k hk]
    cases ht' : a.table d' j' with
    | some t' =>
      have hleaf := h.leaf d' j' t' (by rw [hpage, ht']) k hk
      rw [table_push_some _ ht'] at ht
      rw [← Option.some.inj ht]
      exact hleaf
    | none =>
      -- the new table: nothing of its slot is mapped
      have hm : a.map d' (1024 * j' + k) = none := by
        apply ha.dom
        have e : (1024 * j' + k) / 1024 = j' := by omega
        rw [e, ht']
      have ht : t = frameAt a.uses.length := by
        rw [table_push, ht', Option.none_or] at ht
        split at ht
        · exact (Option.some.inj ht).symm
        · cases ht
      show PTE.Maps _ _ (a.map d' (1024 * j' + k))
      rw [hm, ht]
      exact hzero k hk

/-! ## the same way -/

/-- the pages that processes have taken in `a` hold in `s'` what they hold in `s` -/
def SamePages (a : Frames) (s s' : Loader) : Prop :=
  ∀ t d, a.At t (.page d) → ∀ x, t ≤ x → x < t + 4096 → s'.paging.mem x = s.paging.mem x

/-- where the loader has come to from `s` while the frames came from `a` to `b` -/
structure After (s : Loader) (a : Frames) (s' : Loader) (b : Frames) : Prop where
  shape : Shape s' b
  uses : a.uses <+: b.uses
  same : SamePages a s s'

theorem After.refl {s : Loader} {a : Frames} (h : Shape s a) : After s a s a :=
  ⟨h, List.prefix_rfl, fun _ _ _ _ _ _ => rfl⟩

theorem SamePages.trans {s s' s'' : Loader} {a : Frames} (h : SamePages a s s') (h' : SamePages a s' s'') :
    SamePages a s s'' :=
  fun t d ht x h1 h2 => (h' t d ht x h1 h2).trans (h t d ht x h1 h2)

theorem After.trans {s s' s'' : Loader} {a b c : Frames} (h : After s a s' b) (h' : After s' b s'' c) :
    After s a s'' c where
  shape := h'.shape
  uses := h.uses.trans h'.uses
  same := h.same.trans fun t d ht => h'.same t d (at_of_grown h.uses ht)

/-- an entry of a directory or table is written -/
theorem same_entry {s s' : Loader} {a : Frames} {t k : Nat} {u : Use} {e : PTE} (ht : a.At t u)
    (hu : ∀ d, u ≠ .page d) (hk : k < 1024) (hm : s'.paging = s.paging.setEntry t k e) :
    SamePages a s s' := by
  intro t' d ht' x h1 h2
  have hne := At.ne ht ht' (hu d)
  have e1 := ht.aligned
  have e2 := ht'.aligned
  rw [hm]
  exact write32_apart (by omega)

/-- the next frame is cleared -/
theorem same_handOut {s : Loader} {a : Frames} (h : Shape s a) (hlt : a.uses.length < frameLimit) :
    SamePages a s s.handOut := by
  intro t d ht x h1 h2
  have := ht.lt
  show (StarOS.allocPage s.paging).2.mem x = _
  rw [h.allocPage hlt]
  show zeromem _ _ _ x = _
  rw [zeromem_apply, if_neg (by omega)]

theorem Shape.slot_of {s : Loader} {a : Frames} (h : Shape s a) {d x : Nat} (hd : a.At d .directory)
    (hx : x < 2^32) :
    PTE.Maps (s.paging.entry d (dirIndex x)) (userLevel d) (a.table d (x / 4096 / 1024)) := by
  have e : x / 4096 / 1024 = dirIndex x := by
    rw [dirIndex_eq]
    omega
  rw [e]
  exact h.slot d hd _ (dirIndex_lt hx)

theorem addMemoryMapping_present {s : Paging} {linear physical d : Nat} (u : Bool)
    (hl : linear % 4096 = 0) (hp : physical % 4096 = 0) (he : (s.entry d (dirIndex linear)).p = true) :
    addMemoryMapping s linear physical d u = some (s.setEntry (s.entry d (dirIndex linear)).table
      (tableIndex linear) (PTE.present u physical)) := by
  have h1 := and_fff linear
  have h2 := and_fff physical
  have e : ensureTable s linear d u = s := by
    unfold ensureTable
    rw [if_pos he]
  unfold addMemoryMapping
  rw [if_neg (by omega)]
  simp only [e]

/-- the entry that is written is that of the page -/
theorem Shape.target {s : Loader} {a : Frames} (h : Shape s a) {d x t : Nat} (hd : a.At d .directory)
    (hx : x < 2^32) (ht : a.table d (x / 4096 / 1024) = some t) :
    (s.paging.entry d (dirIndex x)).table = t ∧ tableIndex x = x / 4096 % 1024 := by
  have hslot := h.slot_of hd hx
  rw [ht] at hslot
  have hat := at_of_table ht
  exact ⟨hslot.table hat.aligned (At.lt32 h.ok hat), tableIndex_eq x⟩

theorem alike_touch {s : Loader} {a : Frames} (h : Shape s a) :
    Alike (After s a) (Loader.touch (frameAt a.uses.length) s) (Frames.touch a.uses.length a) := by
  have hx : frameAt a.uses.length < 2^32 := by
    have := h.ok.few
    unfold frameLimit at this
    rw [frameAt_eq]
    omega
  have haligned : frameAt a.uses.length % 4096 = 0 := by
    rw [frameAt_eq]
    omega
  have e : frameAt a.uses.length / 4096 / 1024 = frameAt a.uses.length / 4194304 := by omega
  have hwalk := h.walk h.ok.kernel hx
  have hslot := h.slot_of h.ok.kernel hx
  unfold Loader.touch
  rw [h.enabled, h.kernel, hwalk, Option.isSome_map, hslot.p, e]
  cases hc : !a.isPagingEnabled || (a.map kernelDirectory (frameAt a.uses.length / 4096)).isSome with
  | true =>
    have hb : touch a.uses.length a = .ok ⟨⟩ a := if_pos hc
    rw [hb, if_pos rfl]
    exact .ok (.refl h)
  | false =>
    rw [if_neg Bool.false_ne_true]
    cases ht : a.table kernelDirectory (frameAt a.uses.length / 4194304) with
    | none =>
      have hb : touch a.uses.length a = .error .kernelStackOverflow a := by
        unfold touch
        rw [hc, ht]
        rfl
      rw [hb]
      exact .error (.refl h)
    | some t =>
      have hb : touch a.uses.length a = .ok ⟨⟩
          (a.point kernelDirectory (frameAt a.uses.length / 4096) (frameAt a.uses.length)) := by
        unfold touch
        rw [hc, ht]
        rfl
      have ht' : a.table kernelDirectory (frameAt a.uses.length / 4096 / 1024) = some t := by rw [e, ht]
      obtain ⟨e1, e2⟩ := h.target h.ok.kernel hx ht'
      rw [ht'] at hslot
      have hshape := shape_point h ht' (touch_ok h.ok hb).1
      rw [userLevel_kernel, h.enabled, h.kernel] at hshape
      rw [hb, addMemoryMapping_present false haligned haligned hslot.p, e1, e2]
      exact .ok ⟨hshape, List.prefix_rfl, same_entry (at_of_table ht') (by intro _ e; cases e)
        (Nat.mod_lt _ (by decide)) rfl⟩

theorem allocFrame_ok {s s' : Loader} (h : Loader.touch (allocPage s.paging).1 s = .ok ⟨⟩ s') :
    Loader.allocFrame s = .ok (allocPage s'.paging).1 s'.handOut := by
  unfold Loader.allocFrame
  rw [bind_get, bind_ok h]
  rfl

theorem allocFrame_error {s s' : Loader} {e : Fatal}
    (h : Loader.touch (allocPage s.paging).1 s = .error e s') : Loader.allocFrame s = .error e s' := by
  unfold Loader.allocFrame
  rw [bind_get, bind_error h]

/-- the page `alloc_page` returns is cleared -/
theorem handOut_zero {s : Loader} {a : Frames} (h : Shape s a) (hlt : a.uses.length < frameLimit) :
    ∀ x, frameAt a.uses.length ≤ x → x < frameAt a.uses.length + 4096 → s.handOut.paging.mem x = 0 := by
  intro x h1 h2
  show (allocPage s.paging).2.mem x = 0
  rw [h.allocPage hlt]
  show zeromem _ _ _ x = 0
  rw [zeromem_apply, if_pos ⟨h1, h2⟩]

theorem entry_zero {s : Paging} {t k : Nat} (h : ∀ x, t ≤ x → x < t + 4096 → s.mem x = 0)
    (hk : k < 1024) : (s.entry t k).p = false := by
  have h0 : read32 s.mem (t + 4 * k) = 0 := read32_zero fun x h1 h2 => h x (by omega) (by omega)
  show (PTE.decode (read32 _ _)).p = false
  rw [h0]
  rfl

/-- `alloc_page`, whatever for: both sides halt, or the loader has the frame and the other side takes
it -/
theorem alloc_sides {s : Loader} {a : Frames} (h : Shape s a)
    (hroom : a.isPagingEnabled = false → a.uses.length < frameLimit) :
    (∃ e s' b, Loader.allocFrame s = .error e s' ∧ After s a s' b ∧ ∀ u, alloc u a = .error e b) ∨
    (∃ s' b, After s a s' b ∧ b.uses = a.uses ∧ b.isPagingEnabled = a.isPagingEnabled ∧
      b.uses.length < frameLimit ∧ Loader.allocFrame s = .ok (frameAt b.uses.length) s'.handOut ∧
      ∀ u, alloc u a = .ok (frameAt b.uses.length) (b.push u)) := by
  have hlike := alike_touch h
  have hpage : (allocPage s.paging).1 = frameAt a.uses.length := by
    have hf := h.free
    have hfew := h.ok.few
    unfold frameLimit at hfew
    rw [frameAt_eq] at hf
    rw [allocPage_eq (by omega) (by omega), h.free]
  rw [← hpage] at hlike
  cases hs : Loader.touch (allocPage s.paging).1 s with
  | error e s' =>
    cases ha : touch a.uses.length a with
    | ok u b =>
      rw [hs, ha] at hlike
      cases hlike
    | error e' b =>
      rw [hs, ha] at hlike
      cases hlike with
      | error hI =>
        exact .inl ⟨e, s', b, allocFrame_error hs, hI, fun u => alloc_error u ha⟩
  | ok u s' =>
    cases ha : touch a.uses.length a with
    | error e' b =>
      rw [hs, ha] at hlike
      cases hlike
    | ok u b =>
      rw [hs, ha] at hlike
      cases hlike with
      | ok hI =>
        obtain ⟨-, hu, he, hlt⟩ := touch_ok h.ok ha
        have hlt : b.uses.length < frameLimit := by
          rw [hu]
          cases hen : a.isPagingEnabled with
          | true => exact hlt hen
          | false => exact hroom hen
        refine .inr ⟨s', b, hI, hu, he, hlt, ?_, fun u => alloc_ok u ha⟩
        rw [allocFrame_ok hs, hI.shape.allocPage hlt]

/-- a frame that is no page table -/
theorem alike_alloc {s : Loader} {a : Frames} (h : Shape s a) {u : Use} (hu : ∀ d j, u ≠ .table d j)
    (hroom : a.isPagingEnabled = false → a.uses.length < frameLimit) :
    Alike (After s a) (Loader.allocFrame s) (alloc u a) := by
  rcases alloc_sides h hroom with ⟨e, s', b, hs, hI, ha⟩ | ⟨s', b, hI, -, -, hlt, hs, ha⟩
  · rw [hs, ha]
    exact .error hI
  · rw [hs, ha]
    have hpush := shape_push hI.shape hlt hu (ok_push hI.shape.ok hlt fun d j e => absurd e (hu d j))
    exact .ok (hI.trans ⟨hpush, List.prefix_append _ _, same_handOut hI.shape hlt⟩)

/-! ### pages -/

theorem alike_ensureTable {s : Loader} {a : Frames} (h : Shape s a) {d x : Nat}
    (hd : a.At d .directory) (hk : a.isPagingEnabled = true → d ≠ kernelDirectory)
    (hroom : a.isPagingEnabled = false → a.uses.length < frameLimit) (hx : x < 2^32) :
    Alike (After s a) (Loader.ensureTable x d (userLevel d) s) (Frames.ensureTable d (x / 4096 / 1024) a) := by
  have hslot := h.slot_of hd hx
  have e : dirIndex x = x / 4096 / 1024 := by
    rw [dirIndex_eq]
    omega
  unfold Loader.ensureTable
  rw [bind_get, hslot.p]
  cases ht : (a.table d (x / 4096 / 1024)).isSome with
  | true =>
    rw [ensureTable_some ht, if_pos rfl]
    exact .ok (.refl h)
  | false =>
    rw [ensureTable_none ht, if_neg Bool.false_ne_true]
    rcases alloc_sides h hroom with ⟨e', s', b, hs, hI, ha⟩ | ⟨s', b, hI, hu, he, hlt, hs, ha⟩
    · rw [bind_error hs, bind_error (ha _)]
      exact .error hI
    · rw [bind_ok hs, bind_ok (ha _), e]
      have hdb : b.At d .directory := by
        obtain ⟨i, hi, hd⟩ := hd
        exact ⟨i, hu ▸ hi, hd⟩
      have hkb : b.isPagingEnabled = true → d ≠ kernelDirectory := fun hb => hk (he ▸ hb)
      have hn : b.table d (x / 4096 / 1024) = none := by
        rw [table_congr hu]
        exact Option.not_isSome_iff_eq_none.mp (by rw [ht]; exact Bool.false_ne_true)
      have hpage := shape_push hI.shape hlt (u := .page d) (by intro _ _ e; cases e)
        (ok_push hI.shape.ok hlt (by intro _ _ e; cases e))
      have hok : (b.push (.table d (x / 4096 / 1024))).Ok := by
        refine ok_push hI.shape.ok hlt fun d' j' e => ?_
        injection e with e1 _
        subst e1
        exact ⟨hdb, hkb⟩
      have hzero := handOut_zero hI.shape hlt
      have hshape := shape_table hpage hI.shape.ok hdb (by omega) hn hok fun k hk => entry_zero hzero hk
      refine .ok (hI.trans ⟨hshape, List.prefix_append _ _, (same_handOut hI.shape hlt).trans ?_⟩)
      exact same_entry hdb (by intro _ e; cases e) (k := x / 4096 / 1024) (by omega) rfl

/-- the physical address of a page is either that of the page or a frame of the process -/
def Owned (a : Frames) (d p x : Nat) : Prop :=
  x % 4096 = 0 ∧ x < 2^32 ∧ (d ≠ kernelDirectory → KernelPage p ∧ x = 4096 * p ∨ a.At x (.page d))

theorem alike_mapPage {s : Loader} {a : Frames} (h : Shape s a) {d v x : Nat}
    (hd : a.At d .directory) (hk : a.isPagingEnabled = true → d ≠ kernelDirectory)
    (hroom : a.isPagingEnabled = false → a.uses.length < frameLimit) (hv : v % 4096 = 0) (hlt : v < 2^32)
    (hx : Owned a d (v / 4096) x) :
    Alike (After s a) (Loader.addMapping v x d (userLevel d) s) (mapPage d (v / 4096) x a) := by
  obtain ⟨hxa, hxlt, hown⟩ := hx
  have h1 := and_fff v
  have h2 := and_fff x
  unfold Loader.addMapping mapPage
  rw [if_neg (by omega)]
  refine (alike_ensureTable h hd hk hroom hlt).bind ?_
  intro _ s' b _ hb hI
  have hends := (ensureTable_ends h.ok hd hk hroom (j := v / 4096 / 1024) (by omega)).of_ok hb
  obtain ⟨hb, ht, -⟩ := hends
  obtain ⟨t, ht⟩ := Option.isSome_iff_exists.mp ht
  obtain ⟨e1, e2⟩ := hI.shape.target (hb.grows.at hd) hlt ht
  rw [bind_get, e1, e2]
  have hshape := shape_point hI.shape ht (x := x) (ok_point hI.shape.ok ?_ ⟨hxa, hxlt⟩ fun hd => ?_)
  · refine .ok (hI.trans ⟨hshape, List.prefix_rfl, ?_⟩)
    exact same_entry (at_of_table ht) (by intro _ e; cases e) (Nat.mod_lt _ (by decide)) rfl
  · rw [ht]
    exact Option.some_ne_none _
  · exact (hown hd).imp_right hb.grows.at

/-! ### requests -/

/-- the memory changes inside a page that was taken since -/
theorem After.bytes {s s' : Loader} {a b : Frames} (h : After s a s' b) {d t : Nat}
    (hat : b.At t (.page d)) (hnew : ∀ u, ¬ a.At t u) {m : Mem}
    (hm : ∀ x, x < t ∨ t + 4096 ≤ x → m x = s'.paging.mem x) :
    After s a { s' with paging := { s'.paging with mem := m } } b := by
  refine ⟨shape_bytes h.shape hat hm, h.uses, h.same.trans fun t' d' ht' x h1 h2 => hm x ?_⟩
  have hne : t' ≠ t := fun e => hnew _ (e ▸ ht')
  have e1 := ht'.aligned
  have e2 := hat.aligned
  omega

theorem memset_after {s s' : Loader} {a b : Frames} (h : After s a s' b) {d t : Nat}
    (hat : b.At t (.page d)) (hnew : ∀ u, ¬ a.At t u) :
    ∃ s'', Loader.memset t s' = .ok ⟨⟩ s'' ∧ After s a s'' b := by
  refine ⟨_, rfl, h.bytes hat hnew fun x hx => ?_⟩
  rw [zeromem_apply, pageSize_eq, if_neg (by omega)]

theorem copy_after {s s' : Loader} {a b : Frames} (h : After s a s' b) {d t offset : Nat}
    {data : List UInt8} (hat : b.At t (.page d)) (hnew : ∀ u, ¬ a.At t u)
    (hd : offset + data.length ≤ 4096) :
    ∃ s'', Loader.copy (t + offset) data s' = .ok ⟨⟩ s'' ∧ After s a s'' b := by
  refine ⟨_, rfl, h.bytes hat hnew fun x hx => ?_⟩
  exact writeBytes_apart (by omega)

/-- what holds between taking a page and mapping it -/
structure Fresh (d page : Nat) (a : Frames) : Prop where
  ok : a.Ok
  page : a.At page (.page d)
  directory : a.At d .directory
  enabled : a.isPagingEnabled = true → d ≠ kernelDirectory
  room : a.isPagingEnabled = false → a.uses.length < frameLimit

theorem fresh_of_alloc {a b : Frames} {d page : Nat} (h : Ready d a)
    (hb : alloc (.page d) a = .ok page b) : Fresh d page b := by
  have hroom : a.isPagingEnabled = false → a.uses.length < frameLimit := fun he => by
    have := h.length he
    omega
  obtain ⟨rfl, ht⟩ := (alloc_ends h.ok (by intro _ _ e; cases e) hroom).of_ok hb
  refine ⟨ht.ok, ⟨a.uses.length, ?_, rfl⟩, (ht.grows d).at h.directory,
    fun he => h.enabled (ht.enabled ▸ he), fun he => ?_⟩
  · rw [ht.uses, List.getElem?_append_right (Nat.le_refl _), Nat.sub_self]
    rfl
  · have := h.length (ht.enabled ▸ he)
    rw [ht.length]
    omega

/-- the page was not taken before -/
theorem new_of_alloc {a b : Frames} {d page : Nat} (h : Ready d a)
    (hb : alloc (.page d) a = .ok page b) (u : Use) : ¬ a.At page u := by
  have hroom : a.isPagingEnabled = false → a.uses.length < frameLimit := fun he => by
    have := h.length he
    omega
  obtain ⟨rfl, -⟩ := (alloc_ends h.ok (by intro _ _ e; cases e) hroom).of_ok hb
  exact fun ht => ht.fresh rfl

theorem Fresh.owned {d page : Nat} {a : Frames} (h : Fresh d page a) (p : Nat) : Owned a d p page :=
  ⟨h.page.aligned, At.lt32 h.ok h.page, fun _ => .inr h.page⟩

theorem Fresh.map {d page v : Nat} {a : Frames} {s : Loader} (h : Fresh d page a) (hs : Shape s a)
    (hd : d ≠ kernelDirectory) (hv : v % 4096 = 0) (hlt : v < 2^32) :
    Alike (After s a) (Loader.addMapping v page d true s) (mapPage d (v / 4096) page a) := by
  have hu : userLevel d = true := bne_iff_ne.mpr hd
  have hmap := alike_mapPage hs h.directory h.enabled h.room hv hlt (h.owned _)
  rwa [hu] at hmap

/-- the page is still that of the process after it is mapped -/
theorem Fresh.mapped {d page v : Nat} {a b : Frames} (h : Fresh d page a) (hlt : v < 2^32)
    (hb : mapPage d (v / 4096) page a = .ok ⟨⟩ b) : b.At page (.page d) := by
  obtain ⟨hx, hxlt, ho⟩ := h.owned (v / 4096)
  have hends := mapPage_ends h.ok h.directory h.enabled h.room (p := v / 4096)
    (Nat.div_lt_of_lt_mul hlt) ⟨hx, hxlt⟩ ho
  exact (hends.of_ok hb).1.grows.at h.page

theorem alike_serve {s : Loader} {a : Frames} (h : Shape s a) {d : Nat} {r : Request} (hd : Ready d a)
    (hr : Proper d r) (hk : r.newPages = 1 → d ≠ kernelDirectory) :
    Alike (After s a) (Loader.serve d r s) (serve d r a) := by
  have hroom : a.isPagingEnabled = false → a.uses.length < frameLimit := fun he => by
    have := hd.length he
    omega
  have halloc : Alike (After s a) (Loader.allocFrame s) (alloc (.page d) a) :=
    alike_alloc h (by intro _ _ e; cases e) hroom
  have hv := hr.valid
  cases r with
  | firstPage vpage offset data =>
    obtain ⟨hva, hlt, hdata⟩ := hv
    refine halloc.bind fun page s' b _ hb hI => ?_
    have hf := fresh_of_alloc hd hb
    have hnew := new_of_alloc hd hb
    obtain ⟨s'', hs, hI⟩ := memset_after hI hf.page hnew
    rw [bind_ok hs]
    refine ((hf.map hI.shape (hk rfl) hva hlt).imp fun _ _ => hI.trans).stutter fun s' c hc hI => ?_
    exact copy_after hI (hf.mapped hlt hc) hnew hdata
  | nextPage vaddr data =>
    obtain ⟨hva, hlt, hdata⟩ := hv
    refine halloc.bind fun page s' b _ hb hI => ?_
    have hf := fresh_of_alloc hd hb
    have hnew := new_of_alloc hd hb
    refine ((hf.map hI.shape (hk rfl) hva hlt).imp fun _ _ => hI.trans).stutter fun s' c hc hI => ?_
    obtain ⟨s'', hs, hI⟩ := memset_after hI (hf.mapped hlt hc) hnew
    have hfits : 0 + data.length ≤ 4096 := by omega
    rw [bind_ok hs]
    exact copy_after hI (hf.mapped hlt hc) hnew hfits
  | stackPage vaddr =>
    obtain ⟨hva, hlt⟩ := hv
    refine halloc.bind fun page s' b _ hb hI => ?_
    exact ((fresh_of_alloc hd hb).map hI.shape (hk rfl) hva hlt).imp fun _ _ => hI.trans
  | kernelPage vaddr physical =>
    obtain ⟨hva, hlt, hxa, hx⟩ := hv
    show Alike (After s a) (Loader.addMapping vaddr physical d (d != s.kernelPagingDirectory) s) _
    rw [h.kernel]
    refine alike_mapPage h hd.directory hd.enabled hroom hva hlt ⟨hxa, hx, fun hk => ?_⟩
    obtain ⟨hp, rfl⟩ := hr.identity vaddr physical rfl hk
    exact .inl ⟨hp, by omega⟩

theorem alike_requests {s : Loader} {a : Frames} (h : Shape s a) {d : Nat} {l : List Request}
    (hd : Ready d a) (hl : ∀ r ∈ l, Proper d r)
    (hk : (∀ r ∈ l, r.newPages = 0) ∨ a.isPagingEnabled = true) :
    Alike Shape (l.forM (Loader.serve d) s) (l.forM (serve d) a) := by
  -- what each request leaves ready
  have hJ : ∀ r ∈ l, ∀ b c, (Ready d b ∧ b.isPagingEnabled = a.isPagingEnabled) →
      serve d r b = .ok ⟨⟩ c → Ready d c ∧ c.isPagingEnabled = a.isPagingEnabled := by
    rintro r hr b c ⟨hb, he⟩ hc
    have hs := (serve_ends hb (hl r hr)).of_ok hc
    refine ⟨hb.next hs.takes fun hn => ?_, hs.takes.grows.enabled.trans he⟩
    rcases hk with hk | hk
    · exact hk r hr
    · rw [he, hk] at hn
      cases hn
  refine Alike.forM (J := fun b => Ready d b ∧ b.isPagingEnabled = a.isPagingEnabled) ?_ hJ h ⟨hd, rfl⟩
  rintro r hr s' b hI ⟨hb, he⟩
  refine (alike_serve hI hb (hl r hr) fun hn => ?_).imp fun _ _ h => h.shape
  rcases hk with hk | hk
  · rw [hk r hr] at hn
    cases hn
  · exact hb.enabled (he.trans hk)

/-! ### programs -/

/-- the page `alloc_page` returned is zero already -/
theorem memset_allocFrame {s s' : Loader} {a : Frames} (h : Shape s a)
    (he : a.isPagingEnabled = true) {t : Nat} (hs : Loader.allocFrame s = .ok t s') :
    Loader.memset t s' = .ok ⟨⟩ s' := by
  have hroom : a.isPagingEnabled = false → a.uses.length < frameLimit := fun hn =>
    absurd (he.symm.trans hn) (by decide)
  rcases alloc_sides h hroom with ⟨e, s1, b, hs1, -, -⟩ | ⟨s1, b, hI, -, -, hlt, hs1, -⟩
  · rw [hs] at hs1
    cases hs1
  · rw [hs] at hs1
    injection hs1 with e1 e2
    subst e1 e2
    have hzero := handOut_zero hI.shape hlt
    have hmem : zeromem s1.handOut.paging.mem (frameAt b.uses.length) pageSize = s1.handOut.paging.mem := by
      funext x
      rw [zeromem_apply, pageSize_eq]
      by_cases hx : frameAt b.uses.length ≤ x ∧ x < frameAt b.uses.length + 4096
      · rw [if_pos hx, hzero x hx.1 hx.2]
      · rw [if_neg hx]
    unfold Loader.memset
    rw [hmem]

theorem alike_load {s : Loader} {a : Frames} (h : Shape s a) {f : File}
    (he : a.isPagingEnabled = true) (hf : Accepted f) : Alike Shape (Loader.load f s) (load f a) := by
  have hn : (plan f).2 = none := hf
  have hroom : a.isPagingEnabled = false → a.uses.length < frameLimit := fun hn =>
    absurd (he.symm.trans hn) (by decide)
  unfold Loader.load load
  rw [hn]
  have halloc : Alike (After s a) (Loader.allocFrame s) (alloc .directory a) :=
    alike_alloc h (by intro _ _ e; cases e) hroom
  refine (halloc.imp fun _ _ h => h.shape).bind fun d s' b hs hb hI => ?_
  rw [bind_ok (memset_allocFrame h he hs)]
  obtain ⟨rfl, ht⟩ := (alloc_ends h.ok (by intro _ _ e; cases e) hroom).of_ok hb
  have hready := ready_directory h.ok he ht
  have hbe : b.isPagingEnabled = true := ht.enabled.trans he
  have hproper : ∀ r ∈ (plan f).1, Proper (frameAt a.uses.length) r := plan_proper hf _
  refine (alike_requests hI hready hproper (.inr hbe)).bind fun _ s' c _ hc hI => ?_
  have hg := ((requests_ends (I := fun _ _ => True) (fun _ _ _ _ _ _ => trivial) hready hproper
    (fun hn => absurd (hbe.symm.trans hn) (by decide)) trivial).of_ok hc).1.grows
  have hnew : frameAt a.uses.length ∉ c.directories := fun hd => by
    rw [hg.directories, ht.directories] at hd
    exact (h.ok.processes _ hd).1.fresh rfl
  refine .ok ⟨ok_loaded hI.ok (hg.at hready.directory) (hready.enabled hbe) hnew, hI.free, hI.log,
    hI.kernel, hI.enabled, ?_, hI.slot, hI.leaf⟩
  show s'.directories ++ _ = c.directories ++ _
  rw [hI.directories]

/-- the first frame is the kernel's directory -/
theorem shape_first (mem : Mem) :
    ∃ s, Loader.allocFrame (Loader.boot mem) = .ok kernelDirectory s ∧
      Shape { s with kernelPagingDirectory := kernelDirectory } (boot.push .directory) := by
  have hpage : allocPage (Loader.boot mem).paging
      = (kernelDirectory, ⟨zeromem mem kernelDirectory 4096, frameAt 1⟩) :=
    allocPage_eq (s := (Loader.boot mem).paging) (by show freeMemoryPageStart % 4096 = 0; decide)
      (by show freeMemoryPageStart + 4096 < 2^32; decide)
  have htouch : Loader.touch (allocPage (Loader.boot mem).paging).1 (Loader.boot mem)
      = .ok ⟨⟩ (Loader.boot mem) := rfl
  have hnone : ∀ d j, (boot.push .directory).table d j = none := fun d j =>
    table_push_other (by intro e; cases e)
  refine ⟨(Loader.boot mem).handOut, ?_, ok_first, ?_, ?_, rfl, rfl, rfl, ?_, ?_⟩
  · rw [allocFrame_ok htouch, hpage]
  · show (allocPage (Loader.boot mem).paging).2.freeMemoryPage = _
    rw [hpage]
    rfl
  · show [] ++ [(allocPage (Loader.boot mem).paging).1] = _
    rw [hpage]
    rfl
  · intro d hd j hj
    have hd : d = kernelDirectory := by
      rcases at_push.mp hd with ⟨i, hi, -⟩ | ⟨hd, -⟩
      · cases hi
      · exact hd
    rw [hnone, hd]
    show ((allocPage (Loader.boot mem).paging).2.entry kernelDirectory j).p = false
    rw [hpage]
    refine entry_zero (fun x h1 h2 => ?_) hj
    show zeromem _ _ _ x = 0
    rw [zeromem_apply, if_pos ⟨h1, h2⟩]
  · intro d j t ht
    rw [hnone] at ht
    cases ht

theorem alike_ksetup (mem : Mem) :
    Alike Shape (Loader.ksetupKernelPaging (Loader.boot mem)) (ksetupKernelPaging boot) := by
  obtain ⟨s, hs, hI⟩ := shape_first mem
  have hready := ready_first
  have hset : Loader.setKernelPagingDirectory kernelDirectory s
      = .ok ⟨⟩ { s with kernelPagingDirectory := kernelDirectory } := rfl
  unfold Loader.ksetupKernelPaging ksetupKernelPaging
  rw [bind_ok hs, bind_ok hset, bind_ok alloc_first]
  refine (alike_requests hI hready (kernelRequests_proper _) (.inl kernelRequests_newPages)).bind ?_
  intro _ s' b _ hb hI
  have hrequests := (requests_ends (I := fun _ _ => True) (fun _ _ _ _ _ _ => trivial) hready
    (kernelRequests_proper _) (fun _ => kernelRequests_newPages) trivial).of_ok hb
  rw [pagesOf_zero kernelRequests_newPages] at hrequests
  have hready' := hready.next hrequests.1 fun _ => rfl
  refine ((alike_serve hI hready' proper_test fun hn => ?_).imp fun _ _ h => h.shape).bind ?_
  · cases hn
  · intro _ s' c _ hc hI
    have hok := ksetup_enabled hb hc
    exact .ok ⟨hok, hI.free, hI.log, hI.kernel, rfl, hI.directories, hI.slot, hI.leaf⟩

theorem alike_run (mem : Mem) {files : List File} (hf : ∀ f ∈ files, Accepted f) :
    Alike Shape (Loader.run files (Loader.boot mem)) (run files boot) := by
  refine (alike_ksetup mem).bind fun _ s a _ ha hI => ?_
  have hb := ksetup_ends.of_ok ha
  refine Alike.forM (J := fun a => a.Ok ∧ a.isPagingEnabled = true) ?_ ?_ hI ⟨hb.ok, hb.enabled⟩
  · rintro f hfm s' b hI ⟨-, he⟩
    exact alike_load hI he (hf f hfm)
  · rintro f hfm b c ⟨hok, he⟩ hc
    have hl := (load_ends hok he (hf f hfm)).of_ok hc
    exact ⟨hl.ok, hl.grows.enabled.trans he⟩

end StarOS
