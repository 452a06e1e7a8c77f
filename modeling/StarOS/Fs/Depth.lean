import StarOS.Fs.Walk

/-!
# How deep the search goes (`locate_file_dirent`)

* `Lookup`             a call of `locate_file_dirent`, `Lookup.next` the call it makes;
* `Descends n q q'`    `n` calls in a row find directories, `q'` is the last call made;
* `locate_eq_none_iff` the search has not returned after `n` calls exactly if they all do;
* `joined parts`       a path with its parts between the slashes; `advancing parts` counts the calls that go
                       on behind a slash: a part of 256 characters or more, and the last part, are searched again;
* `Lists`              which directory the entries of a directory give for a part of a path;
* `descends_iff`       calls in a row follow a chain of such directories;
* `depth_iff`          no call is deeper than the number of parts exactly if there is no such chain of that length.
-/

namespace StarOS
open Lib

/-- a call of `locate_file_dirent`, with the number of reads before it -/
structure Lookup where
  reads : Nat
  cluster : Nat
  filename : Mem

section
variable (m : Medium) (locals : Locals) (pbr : Pbr)

/-- what the search in the directory of the call ends with -/
def Lookup.scan (q : Lookup) : Except Fatal Found :=
  scanTable (splitPart q.filename maxFilenameSize 0 (locals.currentPartFilename q.reads)).1
    (readCluster m q.reads q.cluster pbr (locals.buffer q.reads)) (512 / 32) 0 (locals.name q.reads)

/-- the call it makes, if it finds a directory -/
def Lookup.next (q : Lookup) : Option Lookup :=
  match q.scan m locals pbr with
  | .ok (.directory c) =>
    some ⟨q.reads + 1, c, (splitPart q.filename maxFilenameSize 0 (locals.currentPartFilename q.reads)).2⟩
  | _ => none

/-- `n` calls in a row find directories -/
def Descends : Nat → Lookup → Lookup → Prop
  | 0, q, q' => q = q'
  | n + 1, q, q' => ∃ r, q.next m locals pbr = some r ∧ Descends n r q'

end

section
variable {m : Medium} {locals : Locals} {pbr : Pbr}

/-- one call: it returns, or it makes the next one -/
theorem locate_succ_eq_none {fuel : Nat} {q : Lookup} :
    locateFileDirent m locals pbr (fuel + 1) q.reads q.cluster q.filename = none ↔
      ∃ r, q.next m locals pbr = some r ∧
        locateFileDirent m locals pbr fuel r.reads r.cluster r.filename = none := by
  unfold Lookup.next
  cases hs : q.scan m locals pbr with
  | error f => simp [locate_error fuel hs]
  | ok found =>
    cases found with
    | file e => simp [locate_file fuel hs]
    | directory c => simp [locate_directory fuel hs]

theorem locate_eq_none_iff {n : Nat} {q : Lookup} :
    locateFileDirent m locals pbr n q.reads q.cluster q.filename = none ↔
      ∃ q', Descends m locals pbr n q q' := by
  induction n generalizing q with
  | zero => exact ⟨fun _ => ⟨q, rfl⟩, fun _ => rfl⟩
  | succ n ih =>
    rw [locate_succ_eq_none]
    constructor
    · rintro ⟨r, hr, h⟩
      obtain ⟨q', h⟩ := ih.mp h
      exact ⟨q', r, hr, h⟩
    · rintro ⟨q', r, hr, h⟩
      exact ⟨r, hr, ih.mpr ⟨q', h⟩⟩

end

/-! ## the parts of a path -/

/-- the parts with slashes between them -/
def joined : List (List UInt8) → List UInt8
  | [] => []
  | [c] => c
  | c :: c' :: cs => c ++ 0x2f :: joined (c' :: cs)

/-- the parts behind which a call goes on: shorter than `MAX_FILENAME_SIZE`, with a slash behind them -/
def advancing : List (List UInt8) → Nat
  | [] => 0
  | [_] => 0
  | c :: c' :: cs => if c.length < maxFilenameSize then advancing (c' :: cs) + 1 else 0

/-- the part before a slash is cut off -/
theorem splitPart_joined {filename part : Mem} {c c' : List UInt8} {cs : List (List UInt8)}
    (hc : ∀ b ∈ c, b ≠ 0x2f) (hlen : c.length < maxFilenameSize)
    (h : HoldsBytes filename (joined (c :: c' :: cs) ++ [0])) :
    HoldsBytes (splitPart filename maxFilenameSize 0 part).2 (joined (c' :: cs) ++ [0]) := by
  have h : HoldsBytes filename (c ++ 0x2f :: (joined (c' :: cs) ++ [0])) := by
    rw [joined, List.append_assoc] at h
    exact h
  have hne : ∀ y < c.length, filename y ≠ 0x2f := by
    intro y hy
    rw [holds_before h y hy, List.getD_eq_getElem _ _ hy]
    exact hc _ (List.getElem_mem hy)
  rw [(splitPart_slash hne (holds_at h) part (Nat.zero_le _) (by omega)).2]
  exact holds_behind h

/-- without a slash nothing is cut off -/
theorem splitPart_whole {filename : Mem} {n i : Nat} (h : ∀ y < i + n, filename y ≠ 0x2f) (part : Mem) :
    (splitPart filename n i part).2 = filename := by
  induction n generalizing i part with
  | zero => rfl
  | succ n ih =>
    rw [splitPart, if_neg (h i (by omega))]
    exact ih (fun y hy => h y (by omega)) _

/-! ## what a directory lists -/

/-- the first 256 bytes of the name buffer are those of the part, and of a longer part the next byte is `last` -/
def Probe.Meets (c : List UInt8) (last : UInt8) : Probe → Prop
  | .compare _ name => Spells name c ∧ (256 ≤ c.length → name 256 = last)
  | .overrun => True

instance (c : List UInt8) (last : UInt8) : DecidablePred (Probe.Meets c last)
  | .compare _ name => inferInstanceAs (Decidable (Spells name c ∧ (256 ≤ c.length → name 256 = last)))
  | .overrun => .isTrue trivial

/-- The directory in cluster `cluster` lists the part `c` as a directory that begins with `target`: so says the first
of its entries that is compared while the name buffer holds the part. -/
def Lists (m : Medium) (locals : Locals) (pbr : Pbr) (k cluster : Nat) (c : List UInt8) (target : Nat) : Prop :=
  ∃ s name, (probes (slots (readCluster m k cluster pbr (locals.buffer k)) 0 16) (locals.name k)).find?
      (·.Meets c (locals.currentPartFilename k 256)) = some (.compare s name) ∧
    s.IsDirectory ∧ s.firstClusterNumber = target ∧ (256 ≤ c.length → name 256 = 0)

section
variable {part : Mem} {c : List UInt8} (hc : ∀ b ∈ c, b ≠ 0) (hp : Spells part c)
include hc hp

/-- the comparison with the name buffer -/
theorem strcmp_iff {name : Mem} (h : Spells name c ∧ (256 ≤ c.length → name 256 = part 256)) :
    strcmp (maxFilenameSize + 1) part name = if 256 ≤ c.length ∧ name 256 ≠ 0 then none else some 0 := by
  obtain ⟨hs, hlast⟩ := h
  by_cases hlen : 256 ≤ c.length
  · have hsame : ∀ j < 256, part j = name j := by
      intro j hj
      rw [hp j hj (by omega), hs j hj (by omega)]
    have hpos : ∀ j < 256, part j ≠ 0 := by
      intro j hj
      rw [hp j hj (by omega)]
      exact getD_ne_zero hc (by omega)
    have hlast := (hlast hlen).symm
    by_cases h0 : name 256 = 0
    · rw [if_neg fun hn => hn.2 h0]
      refine strcmp_same (i := 256) (by decide) hpos (fun j hj => ?_) (hlast.trans h0)
      rcases Nat.lt_or_eq_of_le hj with hj | rfl
      · exact hsame j hj
      · exact hlast
    · rw [if_pos ⟨hlen, h0⟩]
      refine strcmp_past (fun j hj => ?_) (fun j hj => ?_) <;>
      · rcases Nat.lt_or_eq_of_le (Nat.le_of_lt_succ hj) with hj | rfl
        · first | exact hpos j hj | exact hsame j hj
        · first | exact hlast ▸ h0 | exact hlast
  · rw [if_neg fun hn => hlen hn.1]
    exact strcmp_spelled hc hp (by omega) hs

theorem strcmp_unmet {name : Mem} (h : ¬ (Spells name c ∧ (256 ≤ c.length → name 256 = part 256))) :
    ∃ r, r ≠ 0 ∧ strcmp (maxFilenameSize + 1) part name = some r := by
  by_cases hs : Spells name c
  · obtain ⟨hlen, hne⟩ := Classical.not_imp.mp fun hi => h ⟨hs, hi⟩
    refine strcmp_differ (i := 256) (by decide) (fun j hj => ?_) (fun j hj => ?_) fun e => hne e.symm
    · rw [hp j hj (by omega)]
      exact getD_ne_zero hc (by omega)
    · rw [hp j hj (by omega), hs j hj (by omega)]
  · exact strcmp_unspelled hc hp hs

theorem settle_directory_iff (ps : List Probe) (target : Nat) : settle part ps = .ok (.directory target) ↔
    ∃ s name, ps.find? (·.Meets c (part 256)) = some (.compare s name) ∧ s.IsDirectory ∧
      s.firstClusterNumber = target ∧ (256 ≤ c.length → name 256 = 0) := by
  induction ps with
  | nil => exact ⟨fun h => (by cases h), fun ⟨_, _, h, _⟩ => (by cases h)⟩
  | cons p ps ih =>
    rw [List.find?_cons]
    cases p with
    | overrun => exact ⟨fun h => (by cases h), fun ⟨_, _, h, _⟩ => (by cases h)⟩
    | compare s name =>
      by_cases h : Probe.Meets c (part 256) (.compare s name)
      · have hr := strcmp_iff hc hp h
        rw [decide_eq_true h]
        by_cases hend : 256 ≤ c.length ∧ name 256 ≠ 0
        · rw [if_pos hend] at hr
          rw [settle, hr]
          refine ⟨fun hn => (by cases hn), ?_⟩
          rintro ⟨s', name', he, -, -, h0⟩
          cases he
          exact absurd (h0 hend.1) hend.2
        · rw [if_neg hend] at hr
          rw [settle_equal hr]
          have h0 : 256 ≤ c.length → name 256 = 0 := fun hlen => not_not.mp fun hne => hend ⟨hlen, hne⟩
          constructor
          · intro hd
            by_cases hdir : s.IsDirectory
            · rw [if_pos hdir] at hd
              cases hd
              exact ⟨s, name, rfl, hdir, rfl, h0⟩
            · rw [if_neg hdir] at hd
              cases hd
          · rintro ⟨s', name', he, hdir, ht, -⟩
            cases he
            rw [if_pos hdir, ht]
      · obtain ⟨r, hr, e⟩ := strcmp_unmet hc hp h
        rw [decide_eq_false h, settle]
        simp only [e, hr, if_false]
        exact ih

end

/-! ## a chain of directories -/

section
variable {m : Medium} {locals : Locals} {pbr : Pbr}

/-- the call made is that for a directory that is listed -/
theorem next_iff {q r : Lookup} {c : List UInt8} (h : Heads c q.filename) : q.next m locals pbr = some r ↔
    Lists m locals pbr q.reads q.cluster c r.cluster ∧ r.reads = q.reads + 1 ∧ r.filename = restOf q.filename := by
  have hlast : (splitPart q.filename maxFilenameSize 0 (locals.currentPartFilename q.reads)).1 256
      = locals.currentPartFilename q.reads 256 := splitPart_outside (.inr (Nat.le_of_eq (Nat.zero_add _))) _
  have hscan := settle_directory_iff h.ne_zero (h.spells (locals.currentPartFilename q.reads))
    (probes (slots (readCluster m q.reads q.cluster pbr (locals.buffer q.reads)) 0 16) (locals.name q.reads)) r.cluster
  rw [hlast, ← scanTable_eq] at hscan
  refine Iff.trans ?_ (and_congr_left' hscan)
  have hrest : (splitPart q.filename maxFilenameSize 0 (locals.currentPartFilename q.reads)).2 = restOf q.filename :=
    splitPart_rest _ _ _ _ _
  unfold Lookup.next
  rw [hrest]
  cases hs : q.scan m locals pbr with
  | error f =>
    refine ⟨fun hn => (by cases hn), fun hn => ?_⟩
    cases hs.symm.trans hn.1
  | ok found =>
    cases found with
    | file e =>
      refine ⟨fun hn => (by cases hn), fun hn => ?_⟩
      cases hs.symm.trans hn.1
    | directory cluster =>
      constructor
      · intro hn
        cases hn
        exact ⟨hs, rfl, rfl⟩
      · rintro ⟨hd, hreads, hfilename⟩
        cases hs.symm.trans hd
        cases r
        cases hreads
        cases hfilename
        rfl

/-- calls in a row follow directories each of which lists the next one -/
theorem descends_iff {n : Nat} {q : Lookup} {c : Nat → List UInt8} (h : ∀ i < n, Heads (c i) (restOf^[i] q.filename)) :
    (∃ q', Descends m locals pbr n q q') ↔ ∃ d : Nat → Nat, d 0 = q.cluster ∧
      ∀ i < n, Lists m locals pbr (q.reads + i) (d i) (c i) (d (i + 1)) := by
  induction n generalizing q c with
  | zero => exact ⟨fun _ => ⟨fun _ => q.cluster, rfl, fun i hi => absurd hi (Nat.not_lt_zero i)⟩, fun _ => ⟨q, rfl⟩⟩
  | succ n ih =>
    have hnext : ∀ r : Lookup, r.filename = restOf q.filename → ∀ i < n, Heads (c (i + 1)) (restOf^[i] r.filename) := by
      intro r hr i hi
      rw [hr]
      exact h (i + 1) (Nat.succ_lt_succ hi)
    constructor
    · rintro ⟨q', r, hr, hq'⟩
      obtain ⟨hlists, hreads, hfilename⟩ := (next_iff (h 0 (Nat.succ_pos n))).mp hr
      obtain ⟨d, hd, hchain⟩ := (ih (hnext r hfilename)).mp ⟨q', hq'⟩
      refine ⟨fun i => Nat.casesOn i q.cluster d, rfl, fun i hi => ?_⟩
      cases i with
      | zero =>
        show Lists m locals pbr q.reads q.cluster (c 0) (d 0)
        rw [hd]
        exact hlists
      | succ i =>
        have e : q.reads + (i + 1) = r.reads + i := by omega
        rw [e]
        exact hchain i (Nat.lt_of_succ_lt_succ hi)
    · rintro ⟨d, hd, hchain⟩
      let r : Lookup := ⟨q.reads + 1, d 1, restOf q.filename⟩
      have hlists : Lists m locals pbr q.reads q.cluster (c 0) r.cluster := hd ▸ hchain 0 (Nat.succ_pos n)
      have hr : q.next m locals pbr = some r := (next_iff (h 0 (Nat.succ_pos n))).mpr ⟨hlists, rfl, rfl⟩
      obtain ⟨q', hq'⟩ : ∃ q', Descends m locals pbr n r q' := by
        refine (ih (hnext r rfl)).mpr ⟨fun i => d (i + 1), rfl, fun i hi => ?_⟩
        have e : r.reads + i = q.reads + (i + 1) := Nat.add_right_comm q.reads 1 i
        rw [e]
        exact hchain (i + 1) (Nat.succ_lt_succ hi)
      exact ⟨q', r, hr, hq'⟩

end

/-- the part that call number `i` looks for: once no call gets behind a slash, the same one each time -/
def sought (parts : List (List UInt8)) (i : Nat) : List UInt8 := parts.getD (min i (advancing parts)) []

/-- the calls find their parts at the beginning of what is left of the path -/
theorem heads_sought {filename : Mem} {parts : List (List UInt8)} (hclean : ∀ c ∈ parts, ∀ b ∈ c, b ≠ 0 ∧ b ≠ 0x2f)
    (hf : HoldsBytes filename (joined parts ++ [0])) {i : Nat} (hi : i < parts.length) :
    Heads (sought parts i) (restOf^[i] filename) := by
  induction i generalizing filename parts with
  | zero =>
    cases parts with
    | nil => exact absurd hi (Nat.not_lt_zero _)
    | cons c cs =>
      rw [sought, Nat.zero_min]
      cases cs with
      | nil => exact ⟨hclean c List.mem_cons_self, fun j _ hj => holds_before hf j hj, fun _ => .inl (holds_at hf)⟩
      | cons c' cs =>
        rw [joined, List.append_assoc] at hf
        exact ⟨hclean c List.mem_cons_self, fun j _ hj => holds_before hf j hj, fun _ => .inr (holds_at hf)⟩
  | succ i ih =>
    rw [Function.iterate_succ_apply]
    cases parts with
    | nil => exact absurd hi (Nat.not_lt_zero _)
    | cons c cs =>
      cases cs with
      | nil => exact absurd (Nat.lt_of_succ_lt_succ hi) (Nat.not_lt_zero i)
      | cons c' cs =>
        have hslash : ∀ b ∈ c, b ≠ 0x2f := fun b hb => (hclean c List.mem_cons_self b hb).2
        by_cases hlen : c.length < maxFilenameSize
        · -- the call goes on behind the slash
          have e : sought (c :: c' :: cs) (i + 1) = sought (c' :: cs) i := by
            rw [sought, sought, advancing, if_pos hlen, Nat.succ_min_succ, List.getD_cons_succ]
          rw [e]
          exact ih (fun d hd => hclean d (List.mem_cons_of_mem _ hd)) (splitPart_joined hslash hlen hf)
            (Nat.lt_of_succ_lt_succ hi)
        · -- the same part again
          have e : sought (c :: c' :: cs) (i + 1) = sought (c :: c' :: cs) i := by
            rw [sought, sought, advancing, if_neg hlen, Nat.min_zero, Nat.min_zero]
          have hwhole : restOf filename = filename := by
            refine splitPart_whole (fun y hy => ?_) _
            rw [joined, List.append_assoc] at hf
            have hy' : y < c.length := by omega
            rw [holds_before hf y hy', List.getD_eq_getElem _ _ hy']
            exact hslash _ (List.getElem_mem hy')
          rw [e, hwhole]
          exact ih hclean hf (Nat.lt_of_succ_lt hi)

/-- **The search for a path of `n` parts returns, and makes no more than `n` calls, if and only if there is no chain
of directories from the one it begins in, each of which lists the next one as a directory: under the first part of
the path, the second one and so on, where a part of 256 characters or more stays the one that is looked for.** -/
theorem depth_iff (m : Medium) (locals : Locals) (pbr : Pbr) (q : Lookup) (parts : List (List UInt8))
    (hclean : ∀ c ∈ parts, ∀ b ∈ c, b ≠ 0 ∧ b ≠ 0x2f) (hq : HoldsBytes q.filename (joined parts ++ [0])) :
    locateFileDirent m locals pbr parts.length q.reads q.cluster q.filename ≠ none ↔
      ¬ ∃ d : Nat → Nat, d 0 = q.cluster ∧
        ∀ i < parts.length, Lists m locals pbr (q.reads + i) (d i) (sought parts i) (d (i + 1)) := by
  rw [ne_eq, locate_eq_none_iff, descends_iff fun i hi => heads_sought hclean hq hi]

/-- the path `a/b` on a disk where `a` is a file -/
theorem depth_file : ∃ filename, HoldsBytes filename (joined [[0x61], [0x62]] ++ [0]) ∧
    locateFileDirent singleFile Image.locals singleFile.pbr 2 0 2 filename ≠ none := by
  let filename : Mem := fun i => (joined [[0x61], [0x62]]).getD i 0
  have hholds : HoldsBytes filename (joined [[0x61], [0x62]] ++ [0]) := by
    unfold HoldsBytes
    decide
  refine ⟨filename, hholds, (depth_iff singleFile Image.locals singleFile.pbr ⟨0, 2, filename⟩ [[0x61], [0x62]]
    (by simp) hholds).mpr ?_⟩
  rintro ⟨d, hd, hchain⟩
  -- the root directory does not list `a` as a directory
  obtain ⟨s, name, hfind, hdir, -⟩ := hchain 0 (by decide)
  rw [hd] at hfind
  have hfound : ((probes (slots (readCluster singleFile 0 2 singleFile.pbr (fun _ => 0)) 0 16) (fun _ => 0)).find?
      (·.Meets [0x61] 0)).map (fun p => match p with | .compare s _ => s.attributes | .overrun => 0x10) = some 0 := by
    decide +kernel
  have hfind : (probes (slots (readCluster singleFile 0 2 singleFile.pbr (fun _ => 0)) 0 16) (fun _ => 0)).find?
      (·.Meets [0x61] 0) = some (.compare s name) := hfind
  rw [hfind] at hfound
  have hfile : s.attributes = 0 := Option.some.inj hfound
  rw [Short.IsDirectory, hfile] at hdir
  exact hdir rfl

/-- every directory is one entry with the empty name that is a directory -/
def oneDirectory : Medium := ⟨fun _ y => if y = 11 then 0x10 else 0, fun _ => false⟩

/-- the empty path leads from every directory on to a directory -/
theorem next_oneDirectory (k c : Nat) :
    ∃ r, (⟨k, c, fun _ => 0⟩ : Lookup).next oneDirectory Image.locals Directory.flat = some r ∧
      r.filename = fun _ => 0 := by
  obtain ⟨part, hpart⟩ : ∃ part, part = (splitPart (fun _ => 0) maxFilenameSize 0 (fun _ => 0)).1 := ⟨_, rfl⟩
  have h0 : part 0 = 0 := by
    rw [hpart, splitPart_apply (fun _ => by decide), if_pos (by decide)]
  have hcmp : strcmp (maxFilenameSize + 1) part (fun _ => 0) = some 0 := by
    rw [strcmp, if_neg (by rw [h0]; decide), if_pos ⟨h0, rfl⟩]
  have hscan : (⟨k, c, fun _ => 0⟩ : Lookup).scan oneDirectory Image.locals Directory.flat
      = .ok (.directory 0) := by
    show scanTable (splitPart (fun _ => 0) maxFilenameSize 0 (fun _ => 0)).1
      (fun x => if x < 512 then (if x = 11 then 0x10 else 0) else 0) (15 + 1) 0 (fun _ => 0) = _
    rw [← hpart, scanTable]
    simp only [hcmp]
    rfl
  have hne : (0 : UInt8) ≠ 0x2f := by decide
  exact ⟨_, by rw [Lookup.next, hscan], splitPart_whole (fun _ _ => hne) _⟩

/-- a directory that is its own entry with the empty name: the search never returns -/
theorem endless_search : ¬ ∀ (m : Medium) (locals : Locals) (pbr : Pbr) (q : Lookup) (parts : List (List UInt8)),
    parts ≠ [] → (∀ c ∈ parts, ∀ b ∈ c, b ≠ 0 ∧ b ≠ 0x2f) → HoldsBytes q.filename (joined parts ++ [0]) →
    ∃ fuel, locateFileDirent m locals pbr fuel q.reads q.cluster q.filename ≠ none := by
  intro hall
  obtain ⟨fuel, h⟩ := hall oneDirectory Image.locals Directory.flat ⟨0, 2, fun _ => 0⟩ [[]] (by decide)
    (by simp) (by unfold HoldsBytes; decide)
  apply h
  have hdescends : ∀ n (q : Lookup), q.filename = (fun _ => 0) →
      ∃ q', Descends oneDirectory Image.locals Directory.flat n q q' := by
    intro n
    induction n with
    | zero => exact fun q _ => ⟨q, rfl⟩
    | succ n ih =>
      rintro ⟨k, c, filename⟩ rfl
      obtain ⟨r, hr, hfilename⟩ := next_oneDirectory k c
      obtain ⟨q', hq'⟩ := ih r hfilename
      exact ⟨q', r, hr, hq'⟩
  exact locate_eq_none_iff.mpr (hdescends fuel _ rfl)

end StarOS
