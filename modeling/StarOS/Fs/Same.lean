import Mathlib.Order.WellFounded
import StarOS.Fs.Read
import StarOS.Fs.Certain

/-!
# Lookups that answer the same whatever the memory held (`locate_file_dirent`)

* `Certain m pbr d f o`   whatever the uninitialised locals held, the lookup of `f` from `d` on answers `o`;
* `certain_iff`        **one call**: its verdicts agree with `o`, or find directories that do;
* `certain_acc`        a lookup that always returns does not go round in the directories;
* `certain_any`        where any path may be looked for, nothing can be found;
* `Leads`              all verdicts on the way of a path lead to one answer;
* `same_outcome_iff`   all lookups of a path answer the same exactly if they do.
-/

namespace StarOS
open Lib

/-! ## what a lookup answers -/

/-- the name, the first cluster and the size of an entry, or `none`: there is none -/
abbrev Reply := Option (List UInt8 × Nat × Nat)

/-- what a lookup that returns answers: an entry, or the panic that there is none -/
def reply : Except Fatal (DirEntry × Nat) → Option Reply
  | .ok (e, _) => some (some (cString e.name (maxFilenameSize + 1), e.firstClusterNumber, e.size))
  | .error (.fileNotFound _) => some none
  | .error _ => none

/-- the lookup returns, and answers `o` -/
def HasReply (m : Medium) (locals : Locals) (pbr : Pbr) (k cluster : Nat) (f : Mem) (o : Reply) : Prop :=
  ∃ fuel, (locateFileDirent m locals pbr fuel k cluster f).map reply = some (some o)

/-- no verdict but directories is against the answer -/
def Verdict.Gives (c : List UInt8) (o : Reply) : Verdict → Prop
  | .file firstClusterNumber size => o = some (c, firstClusterNumber, size)
  | .directory _ => True
  | .notFound => o = none
  | .outOfBounds => False

theorem cString_spelled {p : Mem} {c : List UInt8} (hc : ∀ b ∈ c, b ≠ 0) (hlen : c.length < 256)
    (h : Spells p c) : cString p (maxFilenameSize + 1) = c := by
  have hbytes : (List.range c.length).map p = c := by
    refine List.ext_getElem (by simp) fun i hi hi' => ?_
    rw [List.getElem_map, List.getElem_range, h i (by omega) (by omega), List.getD_eq_getElem _ _ hi']
  have hend : p c.length = 0 := by
    rw [h _ hlen (Nat.le_refl _), List.getD_eq_default _ _ (Nat.le_refl _)]
  have e : maxFilenameSize + 1 = c.length + (256 - c.length + 1) := by
    unfold maxFilenameSize
    omega
  rw [cString, e, List.range_add, List.map_append, hbytes, List.range_succ_eq_map, List.map_cons, List.map_cons,
    Nat.add_zero, hend, List.takeWhile_append_of_pos (by simpa using hc), List.takeWhile_cons_of_neg (by decide),
    List.append_nil]

/-! ## one call -/

section
variable {m : Medium} {pbr : Pbr}

theorem scan_eq (hm : ∀ k, m.fails k = false) (pbr : Pbr) (k cluster : Nat) (part buffer name : Mem) :
    scanTable part (readCluster m k cluster pbr buffer) (512 / 32) 0 name
      = settle part (probes (directorySlots m pbr cluster) name) := scan_sector hm pbr k cluster part buffer name

/-- what a lookup answers does not depend on the number of reads before it, and on what the sector buffers
held -/
theorem reply_congr (hm : ∀ k, m.fails k = false) {locals locals' : Locals} (fuel : Nat) {k k' : Nat}
    (hname : ∀ j, locals.name (k + j) = locals'.name (k' + j))
    (hpart : ∀ j, locals.currentPartFilename (k + j) = locals'.currentPartFilename (k' + j)) (cluster : Nat)
    (f : Mem) :
    (locateFileDirent m locals pbr fuel k cluster f).map reply
      = (locateFileDirent m locals' pbr fuel k' cluster f).map reply := by
  induction fuel generalizing k k' cluster f with
  | zero => rfl
  | succ fuel ih =>
    have hname0 : locals.name k = locals'.name k' := hname 0
    have hpart0 : locals.currentPartFilename k = locals'.currentPartFilename k' := hpart 0
    have hscan : scanTable (splitPart f maxFilenameSize 0 (locals.currentPartFilename k)).1
          (readCluster m k cluster pbr (locals.buffer k)) (512 / 32) 0 (locals.name k)
        = scanTable (splitPart f maxFilenameSize 0 (locals'.currentPartFilename k')).1
          (readCluster m k' cluster pbr (locals'.buffer k')) (512 / 32) 0 (locals'.name k') := by
      rw [scan_eq hm pbr, scan_eq hm pbr, hname0, hpart0]
    cases hs : scanTable (splitPart f maxFilenameSize 0 (locals.currentPartFilename k)).1
        (readCluster m k cluster pbr (locals.buffer k)) (512 / 32) 0 (locals.name k) with
    | error e => rw [locate_error fuel hs, locate_error fuel (hscan ▸ hs)]
    | ok found =>
      cases found with
      | file e =>
        rw [locate_file fuel hs, locate_file fuel (hscan ▸ hs)]
        rfl
      | directory d =>
        rw [locate_directory fuel hs, locate_directory fuel (hscan ▸ hs), hpart0]
        have e : ∀ n j, n + 1 + j = n + (j + 1) := by omega
        refine ih (fun j => ?_) (fun j => ?_) d _
        · rw [e, e]
          exact hname (j + 1)
        · rw [e, e]
          exact hpart (j + 1)

variable {locals : Locals} {k cluster : Nat} {f : Mem} {c : List UInt8} {o : Reply}

/-- a lookup has one answer -/
theorem hasReply_unique {o' : Reply} (h : HasReply m locals pbr k cluster f o)
    (h' : HasReply m locals pbr k cluster f o') : o = o' := by
  obtain ⟨fuel, h⟩ := h
  obtain ⟨fuel', h'⟩ := h'
  obtain ⟨r, hr, ho⟩ := Option.map_eq_some_iff.mp h
  obtain ⟨r', hr', ho'⟩ := Option.map_eq_some_iff.mp h'
  have e := locateFileDirent_mono hr (Nat.le_max_left fuel fuel')
  rw [locateFileDirent_mono hr' (Nat.le_max_right fuel fuel')] at e
  rw [← Option.some.inj e, ho'] at ho
  exact (Option.some.inj ho).symm

/-- a call that returns at once -/
theorem hasReply_returns {r : Except Fatal (DirEntry × Nat)}
    (h : ∀ fuel, locateFileDirent m locals pbr (fuel + 1) k cluster f = some r) :
    HasReply m locals pbr k cluster f o ↔ reply r = some o := by
  constructor
  · rintro ⟨fuel, hr⟩
    cases fuel with
    | zero => cases hr
    | succ fuel =>
      rw [h fuel] at hr
      exact Option.some.inj hr
  · intro hr
    exact ⟨1, by rw [h 0, Option.map_some, hr]⟩

theorem hasReply_directory {d : Nat}
    (h : scanTable (splitPart f maxFilenameSize 0 (locals.currentPartFilename k)).1
      (readCluster m k cluster pbr (locals.buffer k)) (512 / 32) 0 (locals.name k) = .ok (.directory d)) :
    HasReply m locals pbr k cluster f o ↔ HasReply m locals pbr (k + 1) d (restOf f) o := by
  have hrest : (splitPart f maxFilenameSize 0 (locals.currentPartFilename k)).2 = restOf f :=
    splitPart_rest _ _ _ _ _
  constructor
  · rintro ⟨fuel, hr⟩
    cases fuel with
    | zero => cases hr
    | succ fuel =>
      rw [locate_directory fuel h, hrest] at hr
      exact ⟨fuel, hr⟩
  · rintro ⟨fuel, hr⟩
    exact ⟨fuel + 1, by rw [locate_directory fuel h, hrest, hr]⟩

/-- **One call**, with a part that fits or a verdict that is not past the end of the part -/
theorem hasReply_iff (hm : ∀ k, m.fails k = false) (hh : Heads c f)
    (hv : c.length < 256 ∨ judge c (probes (directorySlots m pbr cluster) (locals.name k)) = .notFound) :
    HasReply m locals pbr k cluster f o ↔
      (judge c (probes (directorySlots m pbr cluster) (locals.name k))).Gives c o ∧
      ∀ d, judge c (probes (directorySlots m pbr cluster) (locals.name k)) = .directory d →
        HasReply m locals pbr (k + 1) d (restOf f) o := by
  have hs := hh.spells (locals.currentPartFilename k)
  have hj := settle_judged hh.ne_zero hs hv
  have hscan := scan_eq hm pbr k cluster (splitPart f maxFilenameSize 0 (locals.currentPartFilename k)).1
    (locals.buffer k) (locals.name k)
  generalize judge c (probes (directorySlots m pbr cluster) (locals.name k)) = v at hv hj ⊢
  generalize settle _ _ = r at hscan hj
  cases hj with
  | @file e he =>
    have hlen : c.length < 256 := hv.resolve_right (by simp)
    rw [hasReply_returns fun fuel => locate_file fuel hscan, reply, cString_spelled hh.ne_zero hlen he, Option.some.injEq]
    constructor
    · rintro rfl
      exact ⟨rfl, fun d hd => by cases hd⟩
    · rintro ⟨ho, -⟩
      exact ho.symm
  | @directory d =>
    rw [hasReply_directory hscan]
    constructor
    · intro h
      refine ⟨trivial, fun d' hd => ?_⟩
      cases hd
      exact h
    · rintro ⟨-, h⟩
      exact h d rfl
  | notFound =>
    rw [hasReply_returns fun fuel => locate_error fuel hscan, reply, Option.some.injEq]
    constructor
    · rintro rfl
      exact ⟨rfl, fun d hd => by cases hd⟩
    · rintro ⟨ho, -⟩
      exact ho.symm
  | outOfBounds =>
    rw [hasReply_returns fun fuel => locate_error fuel hscan]
    constructor
    · intro h
      cases h
    · rintro ⟨h, -⟩
      exact h.elim

/-- a part that does not fit is compared past its end, if a byte that is not null follows -/
theorem not_hasReply_past (hm : ∀ k, m.fails k = false) (hh : Heads c f) (hlen : 256 ≤ c.length)
    (hpart : locals.currentPartFilename k 256 = 1) (hname : locals.name k 256 = 1)
    (hv : judge c (probes (directorySlots m pbr cluster) (locals.name k)) ≠ .notFound) :
    ¬ HasReply m locals pbr k cluster f o := by
  have hlast : (splitPart f maxFilenameSize 0 (locals.currentPartFilename k)).1 256 = 1 := by
    rw [splitPart_outside (.inr (by decide)), hpart]
  have hscan := scan_eq hm pbr k cluster (splitPart f maxFilenameSize 0 (locals.currentPartFilename k)).1
    (locals.buffer k) (locals.name k)
  rw [settle_past hh.ne_zero (hh.spells _) hlen (by rw [hlast]; decide) (fun s name' hmem => ?_) hv] at hscan
  · rw [hasReply_returns fun fuel => locate_error fuel hscan]
    intro h
    cases h
  · rw [hlast, probes_last (fits_slots _ _ _) hmem, hname]

/-! ## lookups with one answer -/

/-- whatever the uninitialised locals held, the lookup answers `o` -/
def Certain (m : Medium) (pbr : Pbr) (cluster : Nat) (f : Mem) (o : Reply) : Prop :=
  ∀ locals k, HasReply m locals pbr k cluster f o

/-- these locals for the first call, and others for the next ones -/
def Locals.behind (part name : Mem) (locals : Locals) (k : Nat) : Locals where
  currentPartFilename j := if j = 0 then part else locals.currentPartFilename (k + (j - 1))
  name j := if j = 0 then name else locals.name (k + (j - 1))
  buffer _ _ := 0

theorem hasReply_behind (hm : ∀ k, m.fails k = false) (part name : Mem) :
    HasReply m (.behind part name locals k) pbr 1 cluster f o ↔ HasReply m locals pbr k cluster f o := by
  have e : ∀ j, 1 + j - 1 = j := by omega
  have h0 : ∀ j, 1 + j ≠ 0 := by omega
  refine exists_congr fun fuel => ?_
  refine iff_of_eq (congrArg (· = some (some o)) (reply_congr hm fuel (fun j => ?_) (fun j => ?_) cluster f))
  · show (if 1 + j = 0 then _ else locals.name (k + (1 + j - 1))) = _
    rw [if_neg (h0 j), e]
  · show (if 1 + j = 0 then _ else locals.currentPartFilename (k + (1 + j - 1))) = _
    rw [if_neg (h0 j), e]

/-- **One call of a lookup with one answer.** -/
theorem certain_iff (hm : ∀ k, m.fails k = false) (hh : Heads c f) :
    Certain m pbr cluster f o ↔ (∀ v ∈ verdicts m pbr c cluster, v.Gives c o) ∧
      ∀ d, .directory d ∈ verdicts m pbr c cluster → Certain m pbr d (restOf f) o := by
  constructor
  · intro h
    have hone : ∀ v ∈ verdicts m pbr c cluster, v.Gives c o ∧
        ∀ d, v = .directory d → Certain m pbr d (restOf f) o := by
      intro v hv
      obtain ⟨name, rfl⟩ := mem_verdicts.mp hv
      -- behind the name there is no null byte
      let name' : Mem := fun x => if x = 256 then 1 else name x
      have hname : judge c (probes (directorySlots m pbr cluster) name)
          = judge c (probes (directorySlots m pbr cluster) name') :=
        judge_congr _ fun x hx => (if_neg (by omega)).symm
      rw [hname]
      by_cases hfit : c.length < 256 ∨ judge c (probes (directorySlots m pbr cluster) name') = .notFound
      · have hreply : ∀ locals k, HasReply m (.behind (fun _ => 1) name' locals k) pbr 0 cluster f o :=
          fun locals k => h _ 0
        refine ⟨((hasReply_iff hm hh hfit).mp (hreply ⟨fun _ _ => 0, fun _ _ => 0, fun _ _ => 0⟩ 0)).1, ?_⟩
        intro d hd locals k
        exact (hasReply_behind hm _ _).mp (((hasReply_iff hm hh hfit).mp (hreply locals k)).2 d hd)
      · obtain ⟨hlen, hv'⟩ := not_or.mp hfit
        exact absurd (h ⟨fun _ _ => 1, fun _ => name', fun _ _ => 0⟩ 0)
          (not_hasReply_past hm hh (by omega) rfl rfl hv')
    exact ⟨fun v hv => (hone v hv).1, fun d hd => (hone _ hd).2 d rfl⟩
  · rintro ⟨hv, hd⟩ locals k
    have hmem : judge c (probes (directorySlots m pbr cluster) (locals.name k)) ∈ verdicts m pbr c cluster :=
      mem_verdicts.mpr ⟨_, rfl⟩
    refine (hasReply_iff hm hh ?_).mpr ⟨hv _ hmem, fun d hdir => hd d (hdir ▸ hmem) locals (k + 1)⟩
    by_cases hlen : c.length < 256
    · exact .inl hlen
    · refine .inr ((judge_long (by omega) _).resolve_right fun hout => ?_)
      have hg := hv _ hmem
      rw [hout] at hg
      exact hg.elim

theorem directory_short {ps : List Probe} {d : Nat} (hv : judge c ps = .directory d) : c.length < 256 := by
  by_contra hlen
  rcases judge_long (c := c) (by omega) ps with hj | hj
  · rw [hj] at hv
    cases hv
  · rw [hj] at hv
    cases hv

theorem scan_directory (hm : ∀ k, m.fails k = false) (hh : Heads c f) {d : Nat}
    (hv : judge c (probes (directorySlots m pbr cluster) (locals.name k)) = .directory d) :
    scanTable (splitPart f maxFilenameSize 0 (locals.currentPartFilename k)).1
      (readCluster m k cluster pbr (locals.buffer k)) (512 / 32) 0 (locals.name k) = .ok (.directory d) := by
  have hj : Judged c (settle _ (probes (directorySlots m pbr cluster) (locals.name k))) _ :=
    settle_judged hh.ne_zero (hh.spells (locals.currentPartFilename k)) (.inl (directory_short hv))
  rw [hv] at hj
  rw [scan_eq hm]
  generalize settle _ _ = r at hj ⊢
  cases hj
  rfl

/-- the next call of a lookup -/
def Goes (m : Medium) (pbr : Pbr) (q' q : Nat × Mem) : Prop :=
  q'.2 = restOf q.2 ∧ ∃ c, Heads c q.2 ∧ .directory q'.1 ∈ verdicts m pbr c q.1

/-- **A lookup that always returns does not go on for ever.** -/
theorem certain_acc (hm : ∀ k, m.fails k = false) (h : Certain m pbr cluster f o) :
    Acc (Goes m pbr) (cluster, f) := by
  by_contra hn
  obtain ⟨q, h0, hq⟩ := not_acc_iff_exists_descending_chain.mp hn
  choose hrest c hc hv using hq
  choose name hname using fun n => mem_verdicts.mp (hv n)
  let locals : Locals := ⟨fun _ _ => 0, name, fun _ _ => 0⟩
  have hnone : ∀ fuel n, locateFileDirent m locals pbr fuel n (q n).1 (q n).2 = none := by
    intro fuel
    induction fuel with
    | zero => exact fun n => rfl
    | succ fuel ih =>
      intro n
      rw [locate_directory fuel (scan_directory hm (hc n) (hname n)), splitPart_rest _ _ _ _ (fun _ => 0)]
      show locateFileDirent m locals pbr fuel (n + 1) (q (n + 1)).1 (restOf (q n).2) = none
      rw [← hrest n]
      exact ih (n + 1)
  obtain ⟨fuel, hr⟩ := h locals 0
  have e := hnone fuel 0
  rw [h0] at e
  rw [e] at hr
  cases hr

end

/-! ## paths that are put together -/

/-- the bytes `l`, a slash, and `g` behind it -/
def follow (l : List UInt8) (g : Mem) : Mem :=
  fun x => if x < l.length then l.getD x 0 else if x = l.length then 0x2f else g (x - (l.length + 1))

/-- a path of infinitely many parts -/
def flow (cs : Nat → List UInt8) (x : Nat) : UInt8 :=
  if x < (cs 0).length then (cs 0).getD x 0
  else if x = (cs 0).length then 0x2f
  else flow (fun n => cs (n + 1)) (x - ((cs 0).length + 1))
termination_by x

theorem flow_eq (cs : Nat → List UInt8) : flow cs = follow (cs 0) (flow fun n => cs (n + 1)) := by
  funext x
  rw [flow]
  rfl

section
variable {l : List UInt8} {g : Mem}

theorem follow_before {x : Nat} (h : x < l.length) : follow l g x = l.getD x 0 := if_pos h

theorem follow_slash : follow l g l.length = 0x2f := by
  rw [follow, if_neg (Nat.lt_irrefl _), if_pos rfl]

theorem follow_behind : advance (follow l g) (l.length + 1) = g := by
  funext x
  show follow l g (l.length + 1 + x) = g x
  have e : l.length + 1 + x - (l.length + 1) = x := by omega
  rw [follow, if_neg (by omega), if_neg (by omega), e]

theorem holds_follow : HoldsBytes (follow l g) l := fun _ hx => follow_before hx

theorem holds_follow_append {l' : List UInt8} (h : HoldsBytes g l') : HoldsBytes (follow l g) (l ++ 0x2f :: l') := by
  intro x hx
  rw [List.length_append, List.length_cons] at hx
  by_cases h1 : x < l.length
  · rw [follow_before h1, List.getD_append _ _ _ _ h1]
  · rw [List.getD_append_right _ _ _ _ (by omega)]
    by_cases h2 : x = l.length
    · rw [h2, follow_slash, Nat.sub_self]
      rfl
    · have e : x - l.length = x - (l.length + 1) + 1 := by omega
      rw [follow, if_neg h1, if_neg h2, e, List.getD_cons_succ]
      exact h _ (by omega)

/-- the path goes on behind the first slash -/
theorem restOf_follow (h : ∀ b ∈ l, b ≠ 0x2f) (hlen : l.length < 256) : restOf (follow l g) = g := by
  have hne : ∀ y < l.length, follow l g y ≠ 0x2f := by
    intro y hy
    rw [follow_before hy, List.getD_eq_getElem _ _ hy]
    exact h _ (List.getElem_mem hy)
  rw [restOf, (splitPart_slash hne follow_slash _ (Nat.zero_le _) (by unfold maxFilenameSize; omega)).2, follow_behind]

/-- what may stand between the slashes of a path -/
def IsPart (c : List UInt8) : Prop := ∀ b ∈ c, b ≠ 0 ∧ b ≠ 0x2f

theorem heads_follow (h : IsPart l) (g : Mem) : Heads l (follow l g) :=
  ⟨h, fun _ _ hi => follow_before hi, fun _ => .inr follow_slash⟩

end

/-! ## directories behind the path -/

section
variable {m : Medium} {pbr : Pbr} {cluster : Nat} {f : Mem} {c : List UInt8} {o : Reply}

/-- whichever of the parts `C` are looked for from this directory on, the answer is `o` -/
inductive Rests (m : Medium) (pbr : Pbr) (C : List UInt8 → Prop) (o : Reply) : Nat → Prop where
  | intro {cluster : Nat} (hv : ∀ c, C c → ∀ v ∈ verdicts m pbr c cluster, v.Gives c o)
      (hd : ∀ c, C c → ∀ d, .directory d ∈ verdicts m pbr c cluster → Rests m pbr C o d) : Rests m pbr C o cluster

/-- a part of 255 characters is searched again: there is no room for a slash behind its null byte -/
theorem certain_again (hm : ∀ k, m.fails k = false) (hh : Heads c f) (hrest : restOf f = f) :
    Certain m pbr cluster f o ↔ Rests m pbr (· = c) o cluster := by
  constructor
  · intro h
    have hacc := certain_acc hm h
    generalize hq : (cluster, f) = q at hacc
    induction hacc generalizing cluster with
    | intro q _ ih =>
      subst hq
      obtain ⟨hv, hd⟩ := (certain_iff hm hh).mp h
      refine .intro (fun c' hc' => ?_) (fun c' hc' d hmem => ?_)
      · rw [hc']
        exact hv
      · rw [hc'] at hmem
        exact ih (d, f) ⟨hrest.symm, c, hh, hmem⟩ (hrest ▸ hd d hmem) rfl
  · intro h
    induction h with
    | intro hv hd ih => exact (certain_iff hm hh).mpr ⟨hv c rfl, fun d hmem => hrest.symm ▸ ih c rfl d hmem⟩

/-- if every lookup from a directory on returns, the directories do not go round -/
theorem acc_any (hm : ∀ k, m.fails k = false) (h : ∀ f, Certain m pbr cluster f o) :
    Acc (fun d' d => ∃ c, IsPart c ∧ .directory d' ∈ verdicts m pbr c d) cluster := by
  by_contra hn
  obtain ⟨q, rfl, hq⟩ := not_acc_iff_exists_descending_chain.mp hn
  choose c hc hv using hq
  -- the path of all these parts leads along them
  let f : Nat → Mem := fun n => flow fun j => c (n + j)
  have hf : ∀ n, f n = follow (c n) (f (n + 1)) := by
    intro n
    have e : (fun j => c (n + (j + 1))) = fun j => c (n + 1 + j) := by
      funext j
      rw [Nat.add_assoc, Nat.add_comm j]
    show flow (fun j => c (n + j)) = _
    rw [flow_eq, e]
    rfl
  refine not_acc_iff_exists_descending_chain.mpr ⟨fun n => (q n, f n), rfl, fun n => ?_⟩ (certain_acc hm (h (f 0)))
  obtain ⟨name, hname⟩ := mem_verdicts.mp (hv n)
  refine ⟨?_, c n, ?_, hv n⟩
  · show f (n + 1) = restOf (f n)
    rw [hf n, restOf_follow (fun b hb => (hc n b hb).2) (directory_short hname)]
  · show Heads (c n) (f n)
    rw [hf n]
    exact heads_follow (hc n) _

theorem certain_part (hm : ∀ k, m.fails k = false) (h : ∀ f, Certain m pbr cluster f o) (hc : IsPart c) :
    (∀ v ∈ verdicts m pbr c cluster, v.Gives c o) ∧
      ∀ d, .directory d ∈ verdicts m pbr c cluster → ∀ g, Certain m pbr d g o := by
  have hone : ∀ g, _ := fun g => (certain_iff hm (heads_follow hc g)).mp (h (follow c g))
  refine ⟨(hone fun _ => 0).1, fun d hd g => ?_⟩
  obtain ⟨name, hname⟩ := mem_verdicts.mp hd
  have hg := (hone g).2 d hd
  rw [restOf_follow (fun b hb => (hc b hb).2) (directory_short hname)] at hg
  exact hg

/-- a part that does not fit is found nowhere -/
theorem any_none (hm : ∀ k, m.fails k = false) (h : ∀ f, Certain m pbr cluster f o) : o = none := by
  let c : List UInt8 := List.replicate 256 0x41
  have hc : IsPart c := by
    intro b hb
    rw [List.eq_of_mem_replicate hb]
    decide
  have hlen : 256 ≤ c.length := Nat.le_of_eq List.length_replicate.symm
  have hv := (certain_part hm h hc).1 _ (mem_verdicts.mpr ⟨fun _ => 0, rfl⟩)
  rcases judge_long hlen (probes (directorySlots m pbr cluster) fun _ => 0) with hj | hj
  · rw [hj] at hv
    exact hv
  · rw [hj] at hv
    exact hv.elim

/-- **Where every path is answered alike, nothing is found.** -/
theorem certain_any (hm : ∀ k, m.fails k = false) :
    (∀ f, Certain m pbr cluster f o) ↔ o = none ∧ Rests m pbr IsPart none cluster := by
  constructor
  · intro h
    obtain rfl := any_none hm h
    refine ⟨rfl, ?_⟩
    have hacc := acc_any hm h
    induction hacc with
    | intro cluster _ ih =>
      refine .intro (fun c hc => (certain_part hm h hc).1) fun c hc d hd => ?_
      exact ih d ⟨c, hc, hd⟩ ((certain_part hm h hc).2 d hd)
  · rintro ⟨rfl, h⟩
    induction h with
    | intro hv hd ih =>
      intro f
      obtain ⟨c, hc⟩ := exists_heads f
      exact (certain_iff hm hc).mpr ⟨hv c hc.clean, fun d hmem => ih c hc.clean d hmem (restOf f)⟩

/-! ## paths -/

/-- all verdicts on the way of the path give the answer `o`; behind its last part, `o` is the answer whatever
the memory holds -/
def Leads (m : Medium) (pbr : Pbr) : List (List UInt8) → Nat → Reply → Prop
  | [], _, _ => False
  | [c], cluster, o => (∀ v ∈ verdicts m pbr c cluster, v.Gives c o) ∧
    ∀ d, .directory d ∈ verdicts m pbr c cluster →
      if c.length = 255 then Rests m pbr (· = c) o d else o = none ∧ Rests m pbr IsPart none d
  | c :: c' :: cs, cluster, o => (∀ v ∈ verdicts m pbr c cluster, v.Gives c o) ∧
    ∀ d, .directory d ∈ verdicts m pbr c cluster → Leads m pbr (c' :: cs) d o

theorem heads_joined {cs : List (List UInt8)} (hc : IsPart c) (h : HoldsBytes f (joined (c :: cs) ++ [0])) :
    Heads c f := by
  cases cs with
  | nil => exact ⟨hc, fun i _ hi => holds_before h i hi, fun _ => .inl (holds_at h)⟩
  | cons c' cs =>
    have h' : HoldsBytes f (c ++ 0x2f :: (joined (c' :: cs) ++ [0])) := by
      rw [joined, List.append_assoc] at h
      exact h
    exact ⟨hc, fun i _ hi => holds_before h' i hi, fun _ => .inr (holds_at h')⟩

/-- a part of 255 characters and its null byte fill the part -/
theorem restOf_full (hc : IsPart c) (hlen : c.length = 255) (h : HoldsBytes f (joined [c] ++ [0])) :
    restOf f = f := by
  have hh := heads_joined hc h
  refine splitPart_whole (fun y hy => ?_) _
  unfold maxFilenameSize at hy
  by_cases hy' : y < c.length
  · exact hh.ne_slash (by omega) hy'
  · have h0 : f c.length = 0 := holds_at h
    have e : y = c.length := by omega
    rw [e, h0]
    decide

/-- the last part of a path: behind it, any path may follow in the memory -/
theorem certain_last (hm : ∀ k, m.fails k = false) (hlen : c.length < 256) (hc : IsPart c) :
    (∀ f, HoldsBytes f (joined [c] ++ [0]) → Certain m pbr cluster f o) ↔ Leads m pbr [c] cluster o := by
  have hcall : ∀ f, HoldsBytes f (joined [c] ++ [0]) → (Certain m pbr cluster f o ↔
      (∀ v ∈ verdicts m pbr c cluster, v.Gives c o) ∧
        ∀ d, .directory d ∈ verdicts m pbr c cluster → Certain m pbr d (restOf f) o) :=
    fun f hf => certain_iff hm (heads_joined hc hf)
  rw [Leads]
  constructor
  · intro h
    refine ⟨((hcall _ fun _ _ => rfl).mp (h _ fun _ _ => rfl)).1, fun d hd => ?_⟩
    by_cases h255 : c.length = 255
    · rw [if_pos h255]
      have hf : HoldsBytes (fun i => (joined [c] ++ [0]).getD i 0) (joined [c] ++ [0]) := fun _ _ => rfl
      have hrest := restOf_full hc h255 hf
      have hd' := ((hcall _ hf).mp (h _ hf)).2 d hd
      exact (certain_again hm (heads_joined hc hf) hrest).mp (hrest ▸ hd')
    · rw [if_neg h255]
      refine (certain_any hm).mp fun g => ?_
      -- a slash behind the null byte
      have hf : HoldsBytes (follow (c ++ [0]) g) (c ++ [0]) := holds_follow
      have hslash : ∀ b ∈ c ++ [0], b ≠ 0x2f := by
        intro b hb
        rcases List.mem_append.mp hb with hb | hb
        · exact (hc b hb).2
        · rw [List.mem_singleton.mp hb]
          decide
      have hd' := ((hcall _ hf).mp (h _ hf)).2 d hd
      rw [restOf_follow hslash (by rw [List.length_append, List.length_singleton]; omega)] at hd'
      exact hd'
  · rintro ⟨hv, hd⟩ f hf
    refine (hcall f hf).mpr ⟨hv, fun d hmem => ?_⟩
    have hd' := hd d hmem
    by_cases h255 : c.length = 255
    · rw [if_pos h255] at hd'
      have hrest := restOf_full hc h255 hf
      rw [hrest]
      exact (certain_again hm (heads_joined hc hf) hrest).mpr hd'
    · rw [if_neg h255] at hd'
      exact (certain_any hm).mpr hd' (restOf f)

/-- a part before a slash -/
theorem certain_slash (hm : ∀ k, m.fails k = false) (hlen : c.length < 256) (hc : IsPart c) {c' : List UInt8}
    {cs : List (List UInt8)} :
    (∀ f, HoldsBytes f (joined (c :: c' :: cs) ++ [0]) → Certain m pbr cluster f o) ↔
      (∀ v ∈ verdicts m pbr c cluster, v.Gives c o) ∧ ∀ d, .directory d ∈ verdicts m pbr c cluster →
        ∀ g, HoldsBytes g (joined (c' :: cs) ++ [0]) → Certain m pbr d g o := by
  have hslash : ∀ b ∈ c, b ≠ 0x2f := fun b hb => (hc b hb).2
  have hcall : ∀ f, HoldsBytes f (joined (c :: c' :: cs) ++ [0]) → (Certain m pbr cluster f o ↔
      (∀ v ∈ verdicts m pbr c cluster, v.Gives c o) ∧
        ∀ d, .directory d ∈ verdicts m pbr c cluster → Certain m pbr d (restOf f) o) :=
    fun f hf => certain_iff hm (heads_joined hc hf)
  constructor
  · intro h
    refine ⟨((hcall _ fun _ _ => rfl).mp (h _ fun _ _ => rfl)).1, fun d hd g hg => ?_⟩
    have hf : HoldsBytes (follow c g) (joined (c :: c' :: cs) ++ [0]) := by
      rw [joined, List.append_assoc]
      exact holds_follow_append hg
    have hd' := ((hcall _ hf).mp (h _ hf)).2 d hd
    rw [restOf_follow hslash hlen] at hd'
    exact hd'
  · rintro ⟨hv, hd⟩ f hf
    exact (hcall f hf).mpr ⟨hv, fun d hmem => hd d hmem (restOf f) (splitPart_joined hslash hlen hf)⟩

/-- **The lookups of a path have one answer exactly if all verdicts lead to it.** -/
theorem leads_iff (hm : ∀ k, m.fails k = false) {parts : List (List UInt8)} (hne : parts ≠ [])
    (hparts : ∀ c ∈ parts, c.length < 256 ∧ IsPart c) :
    (∀ f, HoldsBytes f (joined parts ++ [0]) → Certain m pbr cluster f o) ↔ Leads m pbr parts cluster o := by
  induction parts generalizing cluster with
  | nil => exact absurd rfl hne
  | cons c cs ih =>
    obtain ⟨hlen, hc⟩ := hparts c List.mem_cons_self
    cases cs with
    | nil => exact certain_last hm hlen hc
    | cons c' cs =>
      rw [certain_slash hm hlen hc, Leads]
      refine and_congr_right fun _ => forall_congr' fun d => imp_congr_right fun _ => ?_
      exact ih (List.cons_ne_nil c' cs) fun x hx => hparts x (List.mem_cons_of_mem _ hx)

/-- two runs that answer the same, in each case: there is one answer for all -/
theorem certain_of_same (hm : ∀ k, m.fails k = false) {l : List UInt8}
    (h : ∀ k (locals locals' : Locals) f f', locals'.buffer = locals.buffer → HoldsBytes f l → HoldsBytes f' l →
      ∃ o, HasReply m locals pbr k cluster f o ∧ HasReply m locals' pbr k cluster f' o) :
    ∃ o, ∀ f, HoldsBytes f l → Certain m pbr cluster f o := by
  let zero : Locals := ⟨fun _ _ => 0, fun _ _ => 0, fun _ _ => 0⟩
  have hl : HoldsBytes (fun i => l.getD i 0) l := fun _ _ => rfl
  obtain ⟨o, ho, -⟩ := h 0 zero zero _ _ rfl hl hl
  refine ⟨o, fun f hf locals k => ?_⟩
  -- the locals from read `k` on, as locals from read 0 on
  let shifted : Locals := ⟨fun j => locals.currentPartFilename (k + j), fun j => locals.name (k + j), fun _ _ => 0⟩
  obtain ⟨o', ho', fuel, hr⟩ := h 0 zero shifted _ f rfl hl hf
  rw [hasReply_unique ho ho']
  refine ⟨fuel, (reply_congr hm fuel (fun j => ?_) (fun j => ?_) cluster f).trans hr⟩
  · exact congrArg (fun n => locals.name (k + n)) (Nat.zero_add j).symm
  · exact congrArg (fun n => locals.currentPartFilename (k + n)) (Nat.zero_add j).symm

end

/-- **Two lookups of a path, with other bytes in the uninitialised locals and behind the path, always
give the same entry, or both find none, if and only if all verdicts on the way lead to one answer.** -/
theorem same_outcome_iff (m : Medium) (hm : ∀ k, m.fails k = false) (pbr : Pbr) (cluster : Nat)
    (parts : List (List UInt8)) (hne : parts ≠ []) (hparts : ∀ c ∈ parts, c.length < 256 ∧ IsPart c) :
    (∀ k (locals locals' : Locals) f f', locals'.buffer = locals.buffer →
      HoldsBytes f (joined parts ++ [0]) → HoldsBytes f' (joined parts ++ [0]) →
      ∃ o, HasReply m locals pbr k cluster f o ∧ HasReply m locals' pbr k cluster f' o) ↔
    ∃ o, Leads m pbr parts cluster o := by
  constructor
  · intro h
    obtain ⟨o, ho⟩ := certain_of_same hm h
    exact ⟨o, (leads_iff hm hne hparts).mp ho⟩
  · rintro ⟨o, ho⟩ k locals locals' f f' - hf hf'
    have hc := (leads_iff hm hne hparts).mpr ho
    exact ⟨o, hc f hf locals k, hc f' hf' locals' k⟩

theorem singleFile_verdicts : verdicts singleFile singleFile.pbr [0x61] 2 = [.file 5 10] := by
  decide +kernel

/-- `a` is answered with its entry, whatever the locals held and what is behind the null byte of the path -/
theorem same_outcome_single : ∃ o,
    HasReply singleFile ⟨fun _ _ => 0, fun _ _ => 0, fun _ _ => 0⟩ singleFile.pbr 0 2
      (fun i => if i = 0 then 0x61 else 0) o ∧
    HasReply singleFile ⟨fun _ _ => 1, fun _ _ => 0x61, fun _ _ => 0⟩ singleFile.pbr 0 2
      (fun i => if i = 0 then 0x61 else if i = 1 then 0 else 0x62) o := by
  have hleads : Leads singleFile singleFile.pbr [[0x61]] 2 (some ([0x61], 5, 10)) := by
    rw [Leads, singleFile_verdicts]
    refine ⟨fun v hv => ?_, fun d hd => ?_⟩
    · rw [List.mem_singleton.mp hv]
      rfl
    · cases List.mem_singleton.mp hd
  refine (same_outcome_iff singleFile (fun _ => rfl) singleFile.pbr 2 [[0x61]] (by decide)
    (by simp [IsPart])).mpr ⟨_, hleads⟩ 0 _ _ _ _ rfl ?_ ?_
  · unfold HoldsBytes
    decide
  · unfold HoldsBytes
    decide

/-- every directory is empty -/
def emptyDisk : Medium := ⟨fun _ _ => 0, fun _ => false⟩

/-- the zero entries are compared with what the name buffer held -/
theorem same_outcome_fails : ¬ ∀ (m : Medium), (∀ k, m.fails k = false) → ∀ (pbr : Pbr) (cluster : Nat)
    (parts : List (List UInt8)), parts ≠ [] → (∀ c ∈ parts, c.length < 256 ∧ IsPart c) →
    ∀ k (locals locals' : Locals) f f', locals'.buffer = locals.buffer →
      HoldsBytes f (joined parts ++ [0]) → HoldsBytes f' (joined parts ++ [0]) →
      ∃ o, HasReply m locals pbr k cluster f o ∧ HasReply m locals' pbr k cluster f' o := by
  intro hall
  have hparts : ∀ c ∈ [([0x61] : List UInt8)], c.length < 256 ∧ IsPart c := by simp [IsPart]
  obtain ⟨o, ho⟩ := certain_of_same (fun _ => rfl) (hall emptyDisk (fun _ => rfl) Directory.flat 2 [[0x61]]
    (by decide) hparts)
  have hleads := (leads_iff (fun _ => rfl) (by decide) hparts).mp ho
  rw [Leads] at hleads
  have hfile := hleads.1 (.file 0 0) (by decide +kernel)
  have hnone := hleads.1 .notFound (by decide +kernel)
  rw [show o = none from hnone] at hfile
  cases hfile

end StarOS
