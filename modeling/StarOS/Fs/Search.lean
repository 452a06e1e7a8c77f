import StarOS.Fs.Directory

/-!
# The search for one name in a directory (`locate_file_dirent`)

A directory holds live groups, deleted entries and an end marker.  `d.Answers name c`: whatever else is
on the disk, the search for the component `c` answers with the file of that name, or panics if there
is no such group.  `name` is what the uninitialised name buffer holds.

* `answers_of_clear`, `clear_of_answers`, `search_iff`   it does so exactly when the name buffer spells the
                            component first at an entry like the file's, and nowhere if there is no group;
* `Heads c f`               the part of the path `f` that a call searches for is `c`;
* `probes_group`            which bytes the buffer holds at a group;
* `fullEntry_not_answered`  a name of 13 characters behind a longer one is not found.
-/

namespace StarOS
open Lib

/-- a component of a path -/
structure Component where
  bytes : List UInt8
  nonempty : bytes ≠ []
  clean : ∀ b ∈ bytes, b ≠ 0 ∧ b ≠ 0x2f

theorem Component.ne_zero (c : Component) : ∀ b ∈ c.bytes, b ≠ 0 := fun b hb => (c.clean b hb).1

namespace Directory

/-- a call that searches the directory for the path `c`: the disk and the partition, the number of the
directory's first cluster, and the path with what follows it in the memory -/
structure Call (d : Directory) (name : Mem) (c : Component) where
  m : Medium
  locals : Locals
  pbr : Pbr
  reads : Nat
  cluster : Nat
  filename : Mem
  table : ∀ y < 512, readCluster m reads cluster pbr (locals.buffer reads) y = d.table y
  name_eq : locals.name reads = name
  spelled : ∀ i ≤ c.bytes.length, filename i = c.bytes.getD i 0

variable {d : Directory} {name : Mem} {c : Component}

def Call.result (q : d.Call name c) (fuel : Nat) : Option (Except Fatal (DirEntry × Nat)) :=
  locateFileDirent q.m q.locals q.pbr fuel q.reads q.cluster q.filename

def Call.part (q : d.Call name c) : Mem :=
  (splitPart q.filename maxFilenameSize 0 (q.locals.currentPartFilename q.reads)).1

def Call.rest (q : d.Call name c) : Mem :=
  (splitPart q.filename maxFilenameSize 0 (q.locals.currentPartFilename q.reads)).2

/-- the live regular file of that name is returned; without a live group of that name, the search
panics -/
structure Answers (d : Directory) (name : Mem) (c : Component) : Prop where
  file : ∀ n s, .live n s ∈ d.items → n.bytes = c.bytes → ¬ s.IsDirectory →
    ∀ q : d.Call name c, ∃ fuel e reads, q.result fuel = some (.ok (e, reads)) ∧
      e.firstClusterNumber = s.firstClusterNumber ∧ e.size = s.size
  missing : (∀ n s, .live n s ∈ d.items → n.bytes ≠ c.bytes) →
    ∀ q : d.Call name c, ∃ fuel part, q.result fuel = some (.error (.fileNotFound part))

/-- the buffer spells the component first at an entry that gives the same file; without a live group of
that name, it spells it nowhere and nothing is stored before it -/
structure Clear (d : Directory) (name : Mem) (c : Component) : Prop where
  file : ∀ n s, .live n s ∈ d.items → n.bytes = c.bytes → ¬ s.IsDirectory →
    ∃ s' name', (d.probes name).find? (·.Stops c.bytes) = some (.compare s' name') ∧ ¬ s'.IsDirectory ∧
      s'.firstClusterNumber = s.firstClusterNumber ∧ s'.size = s.size
  missing : (∀ n s, .live n s ∈ d.items → n.bytes ≠ c.bytes) →
    (d.probes name).find? (·.Stops c.bytes) = none

end Directory

/-! ## the part of the path -/

/-- nothing else is stored -/
theorem splitPart_outside {filename : Mem} {n i x : Nat} (hx : x < i ∨ i + n ≤ x) (part : Mem) :
    (splitPart filename n i part).1 x = part x := by
  induction n generalizing i part with
  | zero => rfl
  | succ n ih =>
    rw [splitPart]
    by_cases h : filename i = 0x2f
    · rw [if_pos h]
      exact if_neg (by omega)
    · rw [if_neg h, ih (by omega)]
      exact if_neg (by omega)

/-- up to the first slash the part is the path -/
theorem splitPart_before {filename : Mem} {n i x : Nat} (h : ∀ y ≤ x, filename y ≠ 0x2f) (part : Mem)
    (hi : i ≤ x) (hx : x < i + n) : (splitPart filename n i part).1 x = filename x := by
  induction n generalizing i part with
  | zero => omega
  | succ n ih =>
    rw [splitPart, if_neg (h i hi)]
    by_cases he : i = x
    · rw [splitPart_outside (by omega), he]
      exact if_pos rfl
    · exact ih _ (by omega) (by omega)

/-- the slash becomes a null byte, and the path goes on behind it -/
theorem splitPart_slash {filename : Mem} {n i x : Nat} (h : ∀ y < x, filename y ≠ 0x2f)
    (hs : filename x = 0x2f) (part : Mem) (hi : i ≤ x) (hx : x < i + n) :
    (splitPart filename n i part).1 x = 0 ∧ (splitPart filename n i part).2 = advance filename (x + 1) := by
  induction n generalizing i part with
  | zero => omega
  | succ n ih =>
    by_cases he : i = x
    · rw [he, splitPart, if_pos hs]
      exact ⟨if_pos rfl, rfl⟩
    · rw [splitPart, if_neg (h i (by omega))]
      exact ih _ (by omega) (by omega)

/-- the path begins with `c`, as far as it fits in the part, and a slash or a null byte behind it -/
structure Heads (c : List UInt8) (f : Mem) : Prop where
  clean : ∀ b ∈ c, b ≠ 0 ∧ b ≠ 0x2f
  bytes : ∀ i < 256, i < c.length → f i = c.getD i 0
  stop : c.length < 256 → f c.length = 0 ∨ f c.length = 0x2f

namespace Heads
variable {c : List UInt8} {f : Mem}

theorem ne_zero (h : Heads c f) : ∀ b ∈ c, b ≠ 0 := fun b hb => (h.clean b hb).1

theorem ne_slash (h : Heads c f) {i : Nat} (hi : i < 256) (hc : i < c.length) : f i ≠ 0x2f := by
  rw [h.bytes i hi hc, List.getD_eq_getElem _ _ hc]
  exact (h.clean _ (List.getElem_mem hc)).2

theorem spells (h : Heads c f) (part : Mem) : Spells (splitPart f maxFilenameSize 0 part).1 c := by
  intro i hi hle
  have hi' : i < 0 + maxFilenameSize := by
    unfold maxFilenameSize
    omega
  by_cases hlt : i < c.length
  · rw [splitPart_before (fun y hy => h.ne_slash (by omega) (by omega)) part (Nat.zero_le i) hi', h.bytes i hi hlt]
  · have e : i = c.length := by omega
    rw [List.getD_eq_default _ _ (by omega), e]
    rw [e] at hi hi'
    rcases h.stop hi with h0 | hs
    · rw [splitPart_before (fun y hy => ?_) part (Nat.zero_le _) hi', h0]
      by_cases hy' : y < c.length
      · exact h.ne_slash (by omega) hy'
      · have ey : y = c.length := by omega
        rw [ey, h0]
        decide
    · exact (splitPart_slash (fun y hy => h.ne_slash (by omega) hy) hs part (Nat.zero_le _) hi').1

end Heads

/-- every path begins with some part -/
theorem exists_heads (f : Mem) : ∃ c, Heads c f := by
  have hex : ∃ x, x = 256 ∨ f x = 0 ∨ f x = 0x2f := ⟨256, .inl rfl⟩
  have hlen : ((List.range (Nat.find hex)).map f).length = Nat.find hex := by
    rw [List.length_map, List.length_range]
  have hstop := Nat.find_spec hex
  refine ⟨(List.range (Nat.find hex)).map f, ⟨fun b hb => ?_, fun i hi hc => ?_, fun h => ?_⟩⟩
  · obtain ⟨i, hi, rfl⟩ := List.mem_map.mp hb
    have hmin := Nat.find_min hex (List.mem_range.mp hi)
    exact ⟨fun h0 => hmin (.inr (.inl h0)), fun hs => hmin (.inr (.inr hs))⟩
  · rw [List.getD_eq_getElem _ _ hc, List.getElem_map, List.getElem_range]
  · rw [hlen] at h ⊢
    rcases hstop with hlast | h0
    · omega
    · exact h0

/-- the path begins with a component, and a slash or a null byte behind it -/
structure Component.Begins (c : Component) (filename : Mem) : Prop where
  bytes : ∀ i < c.bytes.length, filename i = c.bytes.getD i 0
  stop : filename c.bytes.length = 0 ∨ filename c.bytes.length = 0x2f

theorem Component.Begins.ne_slash {c : Component} {filename : Mem} (h : c.Begins filename) :
    ∀ i < c.bytes.length, filename i ≠ 0x2f := by
  intro i hi
  rw [h.bytes i hi, List.getD_eq_getElem _ _ hi]
  exact (c.clean _ (List.getElem_mem hi)).2

theorem Component.Begins.heads {c : Component} {filename : Mem} (h : c.Begins filename) :
    Heads c.bytes filename := ⟨c.clean, fun i _ hi => h.bytes i hi, fun _ => h.stop⟩

theorem Component.Begins.spells {c : Component} {filename : Mem} (h : c.Begins filename) (part : Mem) :
    Spells (splitPart filename maxFilenameSize 0 part).1 c.bytes := h.heads.spells part

/-! ## one call -/

section
variable {m : Medium} {locals : Locals} {pbr : Pbr} {k cluster : Nat} {filename : Mem} (fuel : Nat)

theorem locate_error {f : Fatal}
    (h : scanTable (splitPart filename maxFilenameSize 0 (locals.currentPartFilename k)).1
      (readCluster m k cluster pbr (locals.buffer k)) (512 / 32) 0 (locals.name k) = .error f) :
    locateFileDirent m locals pbr (fuel + 1) k cluster filename = some (.error f) := by
  rw [locateFileDirent]
  simp only [h]

theorem locate_file {e : DirEntry}
    (h : scanTable (splitPart filename maxFilenameSize 0 (locals.currentPartFilename k)).1
      (readCluster m k cluster pbr (locals.buffer k)) (512 / 32) 0 (locals.name k) = .ok (.file e)) :
    locateFileDirent m locals pbr (fuel + 1) k cluster filename = some (.ok (e, k + 1)) := by
  rw [locateFileDirent]
  simp only [h]

theorem locate_directory {target : Nat}
    (h : scanTable (splitPart filename maxFilenameSize 0 (locals.currentPartFilename k)).1
      (readCluster m k cluster pbr (locals.buffer k)) (512 / 32) 0 (locals.name k) = .ok (.directory target)) :
    locateFileDirent m locals pbr (fuel + 1) k cluster filename
      = locateFileDirent m locals pbr fuel (k + 1) target
        (splitPart filename maxFilenameSize 0 (locals.currentPartFilename k)).2 := by
  rw [locateFileDirent]
  simp only [h]

end

namespace Directory
variable {d : Directory} {name : Mem} {c : Component}

theorem Call.spells (q : d.Call name c) : Spells q.part c.bytes := by
  refine Component.Begins.spells ⟨fun i hi => q.spelled i (by omega), .inl ?_⟩ _
  rw [q.spelled _ (Nat.le_refl _), List.getD_eq_default _ _ (Nat.le_refl _)]

theorem Call.scan_eq (q : d.Call name c) :
    scanTable q.part (readCluster q.m q.reads q.cluster q.pbr (q.locals.buffer q.reads)) (512 / 32) 0
      (q.locals.name q.reads) = settle q.part (d.probes name) := by
  rw [q.name_eq]
  exact d.scan_eq q.table q.part name

section
variable (q : d.Call name c) (fuel : Nat)

theorem Call.result_error {f : Fatal} (h : settle q.part (d.probes name) = .error f) :
    q.result (fuel + 1) = some (.error f) := locate_error fuel (q.scan_eq.trans h)

theorem Call.result_file {e : DirEntry} (h : settle q.part (d.probes name) = .ok (.file e)) :
    q.result (fuel + 1) = some (.ok (e, q.reads + 1)) := locate_file fuel (q.scan_eq.trans h)

theorem Call.result_directory {target : Nat} (h : settle q.part (d.probes name) = .ok (.directory target)) :
    q.result (fuel + 1) = locateFileDirent q.m q.locals q.pbr fuel (q.reads + 1) target q.rest :=
  locate_directory fuel (q.scan_eq.trans h)

end

/-- a name that a live group has is shorter than `current_part_filename` -/
theorem live_length {n : LongName} (h : n.bytes = c.bytes) : c.bytes.length < 256 := by
  have := n.le
  rw [← h]
  omega

theorem answers_of_clear (h : d.Clear name c) : d.Answers name c := by
  constructor
  · intro n s hmem hn hf q
    obtain ⟨s', name', hfind, hd, hcl, hsz⟩ := h.file n s hmem hn hf
    have hs := settle_found c.ne_zero q.spells (live_length hn) hfind
    rw [if_neg hd] at hs
    exact ⟨1, _, _, q.result_file 0 hs, hcl, hsz⟩
  · intro hno q
    exact ⟨1, _, q.result_error 0 (settle_none c.ne_zero q.spells (h.missing hno))⟩

/-! ## a disk on which a wrong directory leads astray -/

/-- the first entry of this sector is a long name entry of order zero -/
def stray : Mem := fun y => if y = 11 then 0x0f else 0

def flat : Pbr := ⟨512, 1, 0, 0, 0, 0, 0⟩

theorem scanTable_stray {part buffer name : Mem} (h : ∀ y < 512, buffer y = stray y) :
    scanTable part buffer (512 / 32) 0 name = .error .outOfBounds := by
  have e : slotOf (entryAt stray 0) = .long 0 (List.replicate 13 0) := by decide
  have hslots : slots stray 0 16 = slotOf (entryAt stray 0) :: slots stray (0 + 1) 15 := slots_cons (by decide)
  rw [scanTable_eq, slots_congr h, hslots, e, StarOS.probes, if_pos rfl,
    if_neg (by decide), settle]

/-- a cluster that is in another sector -/
def apart (target : Nat) : Nat := if flat.clusterSector 2 = flat.clusterSector target then 3 else 2

theorem apart_ne (target : Nat) : flat.clusterSector (apart target) ≠ flat.clusterSector target := by
  have h23 : flat.clusterSector 3 ≠ flat.clusterSector 2 := by decide +kernel
  unfold apart
  by_cases h : flat.clusterSector 2 = flat.clusterSector target
  · rw [if_pos h, ← h]
    exact h23
  · rw [if_neg h]
    exact h

/-- the sector of the cluster `target` is stray, every other one is the directory -/
def misleading (d : Directory) (target : Nat) : Medium where
  sector n := if n = flat.clusterSector target then stray else d.table
  fails _ := false

theorem misleading_apply (d : Directory) (target k n : Nat) (buffer : Mem) {y : Nat} (hy : y < 512) :
    readCluster (misleading d target) k n flat buffer y
      = (if flat.clusterSector n = flat.clusterSector target then stray else d.table) y := by
  unfold readCluster
  rw [readInto_apply (fun _ => rfl) _ _ _ _ hy]
  rfl

/-- the directory is in another cluster than `target`; `last` is what follows the 256 bytes of the path -/
def astray (d : Directory) (name : Mem) (c : Component) (target : Nat) (last : UInt8) : d.Call name c where
  m := misleading d target
  locals := ⟨fun _ _ => last, fun _ => name, fun _ _ => 0⟩
  pbr := flat
  reads := 0
  cluster := apart target
  filename i := c.bytes.getD i 0
  table y hy := by rw [misleading_apply _ _ _ _ _ hy, if_neg (apart_ne target)]
  name_eq := rfl
  spelled _ _ := rfl

theorem astray_last (target : Nat) (last : UInt8) : (astray d name c target last).part 256 = last := by
  have hslash : ∀ i, (astray d name c target last).filename i ≠ 0x2f := by
    intro i
    show c.bytes.getD i 0 ≠ 0x2f
    by_cases hi : i < c.bytes.length
    · rw [List.getD_eq_getElem _ _ hi]
      exact (c.clean _ (List.getElem_mem hi)).2
    · rw [List.getD_eq_default _ _ (by omega)]
      decide
  rw [Call.part, splitPart_apply hslash]
  exact if_neg (by decide)

theorem astray_lost (target : Nat) (last : UInt8) (fuel reads : Nat) (filename : Mem) :
    locateFileDirent (astray d name c target last).m (astray d name c target last).locals
      (astray d name c target last).pbr (fuel + 1) reads target filename = some (.error .outOfBounds) := by
  have hscan : ∀ part buffer name, scanTable part (readCluster (misleading d target) reads target flat buffer)
      (512 / 32) 0 name = .error .outOfBounds := fun part buffer name =>
    scanTable_stray fun y hy => by rw [misleading_apply _ _ _ _ _ hy, if_pos rfl]
  show locateFileDirent (misleading d target) _ flat (fuel + 1) reads target filename = _
  rw [locateFileDirent]
  simp only [hscan]

/-! ## when the search does not answer -/

/-- what a call can return if the buffer spells the component at some entry -/
theorem astray_result {s : Short} {name' : Mem}
    (h : (d.probes name).find? (·.Stops c.bytes) = some (.compare s name')) {fuel : Nat}
    {r : Except Fatal (DirEntry × Nat)}
    (hr : (astray d name c s.firstClusterNumber (name' 256)).result fuel = some r) :
    r = .error .outOfBounds ∨ ¬ s.IsDirectory ∧ r = .ok (⟨name', s.firstClusterNumber, s.size⟩, 1) := by
  cases fuel with
  | zero => simp [Call.result, locateFileDirent] at hr
  | succ fuel =>
    rcases settle_reached c.ne_zero (Call.spells _) h (astray_last _ _) with hs | hs
    · rw [Call.result_error _ fuel hs] at hr
      exact .inl (Option.some.inj hr).symm
    · by_cases hd : s.IsDirectory
      · rw [if_pos hd] at hs
        rw [Call.result_directory _ fuel hs] at hr
        cases fuel with
        | zero => simp [locateFileDirent] at hr
        | succ fuel =>
          rw [astray_lost] at hr
          exact .inl (Option.some.inj hr).symm
      · rw [if_neg hd] at hs
        rw [Call.result_file _ fuel hs] at hr
        exact .inr ⟨hd, (Option.some.inj hr).symm⟩

theorem astray_error {f : Fatal} {fuel : Nat} {r : Except Fatal (DirEntry × Nat)}
    (h : settle (astray d name c 0 0).part (d.probes name) = .error f)
    (hr : (astray d name c 0 0).result fuel = some r) : r = .error f := by
  cases fuel with
  | zero => simp [Call.result, locateFileDirent] at hr
  | succ fuel =>
    rw [Call.result_error _ fuel h] at hr
    exact (Option.some.inj hr).symm

theorem clear_of_answers (h : d.Answers name c) : d.Clear name c := by
  constructor
  · intro n s hmem hn hf
    have hall := h.file n s hmem hn hf
    cases hfind : (d.probes name).find? (·.Stops c.bytes) with
    | none =>
      obtain ⟨fuel, e, reads, hq, -⟩ := hall (astray d name c 0 0)
      cases astray_error (settle_none c.ne_zero (Call.spells _) hfind) hq
    | some p =>
      cases p with
      | overrun =>
        obtain ⟨fuel, e, reads, hq, -⟩ := hall (astray d name c 0 0)
        cases astray_error (settle_overrun c.ne_zero (Call.spells _) hfind) hq
      | compare s' name' =>
        obtain ⟨fuel, e, reads, hq, hcl, hsz⟩ := hall (astray d name c s'.firstClusterNumber (name' 256))
        rcases astray_result hfind hq with hr | ⟨hd, hr⟩
        · cases hr
        · cases hr
          exact ⟨s', name', rfl, hd, hcl, hsz⟩
  · intro hno
    have hall := h.missing hno
    cases hfind : (d.probes name).find? (·.Stops c.bytes) with
    | none => rfl
    | some p =>
      cases p with
      | overrun =>
        obtain ⟨fuel, part, hq⟩ := hall (astray d name c 0 0)
        cases astray_error (settle_overrun c.ne_zero (Call.spells _) hfind) hq
      | compare s' name' =>
        obtain ⟨fuel, part, hq⟩ := hall (astray d name c s'.firstClusterNumber (name' 256))
        rcases astray_result hfind hq with hr | ⟨hd, hr⟩
        · cases hr
        · cases hr

/-- **A directory answers for a component exactly when the name buffer spells it first at an entry that
gives the file of that name, and nowhere if there is no such group.** -/
theorem search_iff (d : Directory) (name : Mem) (c : Component) : d.Answers name c ↔ d.Clear name c :=
  ⟨clear_of_answers, answers_of_clear⟩

/-! ## a name that fills its entries -/

/-- `abcdefghijklmn` -/
def fourteen : LongName where
  bytes := [0x61, 0x62, 0x63, 0x64, 0x65, 0x66, 0x67, 0x68, 0x69, 0x6a, 0x6b, 0x6c, 0x6d, 0x6e]
  pos := by decide
  le := by decide
  ascii := by simp

/-- `ABCDEFGHIJKLM` -/
def thirteen : LongName where
  bytes := [0x41, 0x42, 0x43, 0x44, 0x45, 0x46, 0x47, 0x48, 0x49, 0x4a, 0x4b, 0x4c, 0x4d]
  pos := by decide
  le := by decide
  ascii := by simp

/-- two files -/
def twoNames : Directory where
  table := tableOf [fourteen.entry 1, fourteen.entry 0, (⟨0, 3, 10⟩ : Short).entry, thirteen.entry 0,
    (⟨0, 4, 20⟩ : Short).entry]
  items := [.live fourteen ⟨0, 3, 10⟩, .live thirteen ⟨0, 4, 20⟩, .rest (.short ⟨0, 0, 0⟩) 10]
  composed := by
    refine .live (by decide) (fun k hk => ?_) ⟨by decide, by decide⟩
      (.live (by decide) (fun k hk => ?_) ⟨by decide, by decide⟩
        (.rest (by decide) (by decide) fun j hj _ y hy => tableOf_behind (Nat.le_of_lt hj) hy))
    · have hk' : k < 2 := hk
      interval_cases k <;> exact ⟨by decide, by decide, by decide +kernel⟩
    · have hk' : k < 1 := hk
      interval_cases k
      exact ⟨by decide, by decide, by decide +kernel⟩
  distinct := by decide

/-- the name of 13 characters is followed by the last character of the longer one -/
theorem thirteen_not_clear :
    ¬ twoNames.Clear (fun _ => 0) ⟨thirteen.bytes, by decide, by simp [thirteen]⟩ := by
  intro h
  obtain ⟨s, name, hfind, -⟩ := h.file thirteen ⟨0, 4, 20⟩ (by simp [twoNames]) rfl (by decide)
  have hnone : (twoNames.probes (fun _ => 0)).find? (·.Stops thirteen.bytes) = none := by
    decide +kernel
  rw [hnone] at hfind
  cases hfind

/-- there is a directory with two files of which one is not found under its name -/
theorem fullEntry_not_answered : ¬ ∀ (d : Directory) (name : Mem) (c : Component), d.Answers name c :=
  fun h => thirteen_not_clear (clear_of_answers (h _ _ _))

end Directory

end StarOS
