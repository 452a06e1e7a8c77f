import StarOS.Fs.Depth

/-!
# What a search may end with (`locate_file_dirent`)

The name buffer is not cleared: an entry is compared with the bytes the long name entries before it have
stored, and with whatever was in the buffer elsewhere.

* `judge c ps`         what the search for `c` ends with at the comparisons `ps`;
* `settle_judged`, `settle_past`   the search ends with it;
* `Known`              the bytes of the name buffer that are stored, `K.fill name` the buffer;
* `outcomes c slots`   the entries that agree with `c` as far as bytes are stored, each with another byte
                       stored than the one before, up to the first where all of them are;
* `mem_outcomes`, `mem_verdicts`   **these are what the search may end with**, one for some content of the
                       buffer each.
-/

namespace StarOS
open Lib

/-! ## verdicts -/

inductive Verdict where
  | file (firstClusterNumber size : Nat)
  | directory (firstClusterNumber : Nat)
  | notFound
  | outOfBounds
deriving DecidableEq

/-- what an entry with the name `c` is taken for; a name that fills `current_part_filename` may be compared past
its end -/
def Short.verdict (s : Short) (c : List UInt8) : Verdict :=
  if 256 ≤ c.length then .outOfBounds
  else if s.IsDirectory then .directory s.firstClusterNumber
  else .file s.firstClusterNumber s.size

/-- what the search for `c` ends with -/
def judge (c : List UInt8) : List Probe → Verdict
  | [] => .notFound
  | .overrun :: _ => .outOfBounds
  | .compare s name :: ps => if Spells name c then s.verdict c else judge c ps

/-- the result of the search has this verdict -/
inductive Judged (c : List UInt8) : Except Fatal Found → Verdict → Prop where
  | file {e : DirEntry} (h : Spells e.name c) : Judged c (.ok (.file e)) (.file e.firstClusterNumber e.size)
  | directory {d : Nat} : Judged c (.ok (.directory d)) (.directory d)
  | notFound {l : List UInt8} : Judged c (.error (.fileNotFound l)) .notFound
  | outOfBounds : Judged c (.error .outOfBounds) .outOfBounds

/-- a name that fills the part is not found, or compared past its end -/
theorem judge_long {c : List UInt8} (h : 256 ≤ c.length) (ps : List Probe) :
    judge c ps = .notFound ∨ judge c ps = .outOfBounds := by
  induction ps with
  | nil => exact .inl rfl
  | cons p ps ih =>
    cases p with
    | overrun => exact .inr rfl
    | compare s name =>
      rw [judge]
      by_cases hs : Spells name c
      · rw [if_pos hs]
        exact .inr (if_pos h)
      · rw [if_neg hs]
        exact ih

section
variable {part : Mem} {c : List UInt8} (hc : ∀ b ∈ c, b ≠ 0) (hp : Spells part c)
include hc hp

theorem settle_judged {ps : List Probe} (h : c.length < 256 ∨ judge c ps = .notFound) :
    Judged c (settle part ps) (judge c ps) := by
  induction ps with
  | nil => exact .notFound
  | cons p ps ih =>
    cases p with
    | overrun => exact .outOfBounds
    | compare s name =>
      rw [judge] at h ⊢
      by_cases hs : Spells name c
      · rw [if_pos hs] at h ⊢
        have hlen : c.length < 256 := by
          rcases h with hlen | hv
          · exact hlen
          · by_contra hlen
            rw [Short.verdict, if_pos (by omega)] at hv
            cases hv
        have hv : s.verdict c = if s.IsDirectory then .directory s.firstClusterNumber
            else .file s.firstClusterNumber s.size := if_neg (by omega)
        rw [settle_equal (strcmp_spelled hc hp hlen hs), hv]
        by_cases hd : s.IsDirectory
        · rw [if_pos hd, if_pos hd]
          exact .directory
        · rw [if_neg hd, if_neg hd]
          exact .file hs
      · rw [if_neg hs] at h ⊢
        rw [settle_skip hc hp (p := .compare s name) hs]
        exact ih h

/-- a name that fills the part is compared past its end, if no null byte follows -/
theorem settle_past (hlen : 256 ≤ c.length) (hlast : part 256 ≠ 0) {ps : List Probe}
    (hps : ∀ s name, .compare s name ∈ ps → name 256 = part 256) (h : judge c ps ≠ .notFound) :
    settle part ps = .error .outOfBounds := by
  induction ps with
  | nil => exact absurd rfl h
  | cons p ps ih =>
    cases p with
    | overrun => rfl
    | compare s name =>
      rw [judge] at h
      by_cases hs : Spells name c
      · have h0 : ∀ j < maxFilenameSize + 1, part j ≠ 0 := by
          intro j hj
          by_cases hj' : j < 256
          · rw [hp j hj' (by omega)]
            exact getD_ne_zero hc (by omega)
          · have e : j = 256 := by
              unfold maxFilenameSize at hj
              omega
            rw [e]
            exact hlast
        have he : ∀ j < maxFilenameSize + 1, part j = name j := by
          intro j hj
          by_cases hj' : j < 256
          · rw [hp j hj' (by omega), hs j hj' (by omega)]
          · have e : j = 256 := by
              unfold maxFilenameSize at hj
              omega
            rw [e]
            exact (hps s name List.mem_cons_self).symm
        rw [settle, strcmp_past h0 he]
      · rw [if_neg hs] at h
        rw [settle_skip hc hp (p := .compare s name) hs]
        exact ih (fun s' name' hmem => hps s' name' (List.mem_cons_of_mem _ hmem)) h

end

/-! ## the stored bytes -/

/-- the bytes of the name buffer that are stored -/
abbrev Known := Nat → Option UInt8

namespace Known

/-- the buffer, if it held `name` at first -/
def fill (K : Known) (name : Mem) : Mem := fun x => (K x).getD (name x)

def store (K : Known) (off : Nat) (chars : List UInt8) : Known :=
  fun x => if off ≤ x then (chars[x - off]?).or (K x) else K x

/-- the bytes of the component and its null byte, as far as they are in the part -/
def span (c : List UInt8) : Nat := min (c.length + 1) 256

/-- no byte that is stored differs from the component and its null byte -/
def agrees (K : Known) (c : List UInt8) : Bool :=
  (List.range (span c)).all fun x => (K x).all (· == c.getD x 0)

/-- the bytes that are not stored -/
def missing (K : Known) (c : List UInt8) : List Nat :=
  (List.range (span c)).filter fun x => (K x).isNone

variable {K : Known} {c : List UInt8} {name : Mem}

theorem fill_store (off : Nat) (chars : List UInt8) :
    (K.store off chars).fill name = overlay (K.fill name) off chars := by
  funext x
  unfold fill store overlay
  by_cases h : off ≤ x
  · rw [if_pos h, if_pos h]
    cases chars[x - off]? <;> rfl
  · rw [if_neg h, if_neg h]

theorem mem_missing {x : Nat} : x ∈ K.missing c ↔ x < span c ∧ K x = none := by
  rw [missing, List.mem_filter, List.mem_range, Option.isNone_iff_eq_none]

theorem agrees_iff : K.agrees c = true ↔ ∀ x < span c, ∀ b, K x = some b → b = c.getD x 0 := by
  rw [agrees, List.all_eq_true]
  simp only [List.mem_range, Option.all_eq_true, beq_iff_eq]

theorem spells_iff {p : Mem} : Spells p c ↔ ∀ x < span c, p x = c.getD x 0 := by
  have hspan : ∀ x, x < span c ↔ x < 256 ∧ x ≤ c.length := by
    intro x
    unfold span
    omega
  exact forall_congr' fun x => ⟨fun h hx => h ((hspan x).mp hx).1 ((hspan x).mp hx).2,
    fun h h1 h2 => h ((hspan x).mpr ⟨h1, h2⟩)⟩

/-- the buffer spells the component if the stored bytes agree and the others happen to -/
theorem fill_spells : Spells (K.fill name) c ↔
    K.agrees c = true ∧ ∀ x ∈ K.missing c, name x = c.getD x 0 := by
  rw [agrees_iff, spells_iff]
  constructor
  · intro h
    refine ⟨fun x hx b hb => ?_, fun x hx => ?_⟩
    · have hs := h x hx
      rw [fill, hb] at hs
      exact hs
    · obtain ⟨hx, hn⟩ := mem_missing.mp hx
      have hs := h x hx
      rw [fill, hn] at hs
      exact hs
  · rintro ⟨hstored, hrest⟩ x hx
    rw [fill]
    cases hk : K x with
    | some b => exact hstored x hx b hk
    | none => exact hrest x (mem_missing.mpr ⟨hx, hk⟩)

end Known

/-- a byte that was missing at the last entry that agreed is stored now -/
def nearer (K : Known) : Option (List Nat) → Bool
  | none => true
  | some missed => missed.any fun x => (K x).isSome

/-- what the search for `c` may end with from here on; `missed` are the bytes that were missing at the last
entry that agreed -/
def outcomes (c : List UInt8) : List Slot → Known → Option (List Nat) → List Verdict
  | [], _, _ => [.notFound]
  | .short s :: slots, K, missed =>
    if K.agrees c && nearer K missed then
      s.verdict c :: if K.missing c = [] then [] else outcomes c slots K (some (K.missing c))
    else outcomes c slots K missed
  | .long order chars :: slots, K, missed =>
    if order = 0 then
      if chars = [] then outcomes c slots K missed else [.outOfBounds]
    else outcomes c slots (K.store (13 * (order - 1)) chars) missed

/-- what is known when the entries before were no match: one of the bytes missing at the last entry that
agreed is another one -/
structure Passed (c : List UInt8) (missed : Option (List Nat)) (name : Mem) : Prop where
  differs : ∀ l, missed = some l → ∃ x ∈ l, name x ≠ c.getD x 0

/-- the bytes missing now were missing before -/
structure Shrinks (c : List UInt8) (K : Known) (missed : Option (List Nat)) : Prop where
  nonempty : missed ≠ some []
  le : ∀ l, missed = some l → ∀ x ∈ l, x < Known.span c
  sub : ∀ l, missed = some l → ∀ x ∈ K.missing c, x ∈ l

section
variable {c : List UInt8} {K : Known} {missed : Option (List Nat)} {name : Mem}

theorem Shrinks.store (h : Shrinks c K missed) (off : Nat) (chars : List UInt8) :
    Shrinks c (K.store off chars) missed := by
  refine ⟨h.nonempty, h.le, fun l hl x hx => h.sub l hl x ?_⟩
  obtain ⟨hx, hn⟩ := Known.mem_missing.mp hx
  refine Known.mem_missing.mpr ⟨hx, ?_⟩
  unfold Known.store at hn
  split at hn
  · exact (Option.or_eq_none_iff.mp hn).2
  · exact hn

theorem Shrinks.entry (h : K.missing c ≠ []) : Shrinks c K (some (K.missing c)) := by
  refine ⟨fun e => h (Option.some.inj e), fun l hl x hx => ?_, fun l hl x hx => ?_⟩
  · cases hl
    exact (Known.mem_missing.mp hx).1
  · cases hl
    exact hx

/-- the name that agrees with the component at the bytes `l` only -/
def onlyAt (c : List UInt8) (l : List Nat) : Mem := fun x => if x ∈ l then c.getD x 0 else c.getD x 0 + 1

theorem onlyAt_ne {l : List Nat} {x : Nat} (h : x ∉ l) : onlyAt c l x ≠ c.getD x 0 := by
  rw [onlyAt, if_neg h]
  exact fun e => absurd (UInt8.add_eq_left.mp e) (by decide)

theorem Shrinks.passed (h : Shrinks c K missed) : ∃ name, Passed c missed name := by
  refine ⟨onlyAt c [], ⟨fun l hl => ?_⟩⟩
  have hne : l ≠ [] := fun e => h.nonempty (e ▸ hl)
  obtain ⟨x, hx⟩ := List.exists_mem_of_ne_nil l hne
  exact ⟨x, hx, onlyAt_ne List.not_mem_nil⟩

/-- the buffer that makes this entry the match was no match before -/
theorem Passed.onlyAt (h : nearer K missed = true) : Passed c missed (onlyAt c (K.missing c)) := by
  refine ⟨fun l hl => ?_⟩
  rw [hl, nearer, List.any_eq_true] at h
  obtain ⟨x, hx, hs⟩ := h
  refine ⟨x, hx, onlyAt_ne fun hm => ?_⟩
  rw [(Known.mem_missing.mp hm).2] at hs
  cases hs

theorem spells_onlyAt (h : K.agrees c = true) :
    Spells (K.fill (onlyAt c (K.missing c))) c :=
  (Known.fill_spells).mpr ⟨h, fun _ hx => if_pos hx⟩

/-- behind an entry that agreed and was no match -/
theorem passed_missing (h : K.agrees c = true) :
    Passed c (some (K.missing c)) name ↔ ¬ Spells (K.fill name) c := by
  rw [Known.fill_spells]
  constructor
  · rintro hp ⟨-, heq⟩
    obtain ⟨x, hx, hne⟩ := hp.differs _ rfl
    exact hne (heq x hx)
  · intro hn
    refine ⟨fun l hl => ?_⟩
    cases hl
    by_contra hno
    refine hn ⟨h, fun x hx => ?_⟩
    by_contra hne
    exact hno ⟨x, hx, hne⟩

theorem Passed.mono (h : Shrinks c K missed) (hp : Passed c (some (K.missing c)) name) : Passed c missed name := by
  refine ⟨fun l hl => ?_⟩
  obtain ⟨x, hx, hne⟩ := hp.differs _ rfl
  exact ⟨x, h.sub l hl x hx, hne⟩

/-- an entry that does not agree, or where nothing more is stored than at the last one, is passed over -/
theorem not_spells (h : Shrinks c K missed) (hn : ¬ (K.agrees c && nearer K missed) = true)
    (hp : Passed c missed name) : ¬ Spells (K.fill name) c := by
  rw [Known.fill_spells]
  rintro ⟨ha, heq⟩
  apply hn
  rw [ha, Bool.true_and]
  cases missed with
  | none => rfl
  | some l =>
    obtain ⟨x, hx, hne⟩ := hp.differs l rfl
    rw [nearer, List.any_eq_true]
    refine ⟨x, hx, Option.isSome_iff_ne_none.mpr fun hk => ?_⟩
    exact hne (heq x (Known.mem_missing.mpr ⟨h.le l rfl x hx, hk⟩))

/-- **The verdicts a search may end with**: those of the buffers that did not match before -/
theorem mem_outcomes {v : Verdict} (ss : List Slot) (h : Shrinks c K missed) :
    v ∈ outcomes c ss K missed ↔ ∃ name, Passed c missed name ∧ judge c (probes ss (K.fill name)) = v := by
  induction ss generalizing K missed with
  | nil =>
    rw [outcomes, List.mem_singleton]
    constructor
    · rintro rfl
      obtain ⟨name, hn⟩ := h.passed
      exact ⟨name, hn, rfl⟩
    · rintro ⟨name, -, rfl⟩
      rfl
  | cons slot ss ih =>
    cases slot with
    | long order chars =>
      rw [outcomes]
      simp only [probes]
      by_cases h0 : order = 0
      · rw [if_pos h0]
        simp only [if_pos h0]
        by_cases hc : chars = []
        · rw [if_pos hc]
          simp only [if_pos hc]
          exact ih h
        · rw [if_neg hc, List.mem_singleton]
          simp only [if_neg hc, judge]
          constructor
          · rintro rfl
            obtain ⟨name, hn⟩ := h.passed
            exact ⟨name, hn, rfl⟩
          · rintro ⟨name, -, rfl⟩
            rfl
      · rw [if_neg h0, ih (h.store _ _)]
        simp only [if_neg h0, Known.fill_store]
    | short s =>
      rw [outcomes]
      simp only [probes, judge]
      by_cases ha : (K.agrees c && nearer K missed) = true
      · rw [if_pos ha, List.mem_cons]
        obtain ⟨hagree, hnear⟩ := Bool.and_eq_true_iff.mp ha
        constructor
        · rintro (rfl | hv)
          · exact ⟨_, .onlyAt hnear, if_pos (spells_onlyAt hagree)⟩
          · by_cases hm : K.missing c = []
            · rw [if_pos hm] at hv
              cases hv
            · rw [if_neg hm] at hv
              obtain ⟨name, hp, hj⟩ := (ih (.entry hm)).mp hv
              exact ⟨name, hp.mono h, (if_neg ((passed_missing hagree).mp hp)).trans hj⟩
        · rintro ⟨name, -, hj⟩
          by_cases hs : Spells (K.fill name) c
          · rw [if_pos hs] at hj
            exact .inl hj.symm
          · rw [if_neg hs] at hj
            have hp := (passed_missing hagree).mpr hs
            have hm : K.missing c ≠ [] := fun e => by
              obtain ⟨x, hx, -⟩ := hp.differs _ rfl
              rw [e] at hx
              cases hx
            rw [if_neg hm]
            exact .inr ((ih (.entry hm)).mpr ⟨name, hp, hj⟩)
      · rw [if_neg ha, ih h]
        constructor
        · rintro ⟨name, hp, hj⟩
          exact ⟨name, hp, (if_neg (not_spells h ha hp)).trans hj⟩
        · rintro ⟨name, hp, hj⟩
          rw [if_neg (not_spells h ha hp)] at hj
          exact ⟨name, hp, hj⟩

end

section
variable (m : Medium) (pbr : Pbr)

/-- the entries of a directory -/
def directorySlots (cluster : Nat) : List Slot := slots (m.sector (pbr.clusterSector cluster)) 0 16

/-- what the search for `c` in a directory may end with -/
def verdicts (c : List UInt8) (cluster : Nat) : List Verdict :=
  outcomes c (directorySlots m pbr cluster) (fun _ => none) none

end

theorem mem_verdicts {m : Medium} {pbr : Pbr} {c : List UInt8} {cluster : Nat} {v : Verdict} :
    v ∈ verdicts m pbr c cluster ↔ ∃ name, judge c (probes (directorySlots m pbr cluster) name) = v := by
  have h : Shrinks c (fun _ => none) none := ⟨by simp, by simp, by simp⟩
  have hp : ∀ name, Passed c none name := fun name => ⟨by simp⟩
  rw [verdicts, mem_outcomes _ h]
  exact exists_congr fun name => ⟨fun hv => hv.2, fun hv => ⟨hp name, hv⟩⟩

/-! ## what the search reads of the buffer -/

/-- the last byte of the name buffer is never stored -/
def Slot.Fits : Slot → Prop
  | .short _ => True
  | .long order chars => 13 * (order - 1) + chars.length ≤ 256

theorem fits_slots (table : Mem) (i n : Nat) : ∀ slot ∈ slots table i n, slot.Fits := by
  intro slot h
  obtain ⟨j, -, rfl⟩ := List.mem_map.mp h
  rw [slotOf]
  by_cases hl : entryAt table j 11 = 0x0f
  · rw [if_pos hl]
    have ho := order_le (entryAt table j 0)
    have hchars := longChars_length (entryAt table j) 0 13
    show 13 * ((entryAt table j 0 &&& 0xf).toNat - 1) + (longChars (entryAt table j) 0 13).length ≤ 256
    omega
  · rw [if_neg hl]
    trivial

theorem probes_last {ss : List Slot} (hfit : ∀ slot ∈ ss, slot.Fits) {name name' : Mem} {s : Short}
    (h : .compare s name' ∈ probes ss name) : name' 256 = name 256 := by
  induction ss generalizing name with
  | nil => cases h
  | cons slot ss ih =>
    have hfit' : ∀ slot ∈ ss, slot.Fits := fun slot hs => hfit slot (List.mem_cons_of_mem _ hs)
    cases slot with
    | short s' =>
      rw [probes] at h
      cases h with
      | head => rfl
      | tail _ h => exact ih hfit' h
    | long order chars =>
      rw [probes] at h
      split at h
      · split at h
        · exact ih hfit' h
        · cases List.mem_singleton.mp h
      · have hle : 13 * (order - 1) + chars.length ≤ 256 := hfit (.long order chars) List.mem_cons_self
        rw [ih hfit' h, overlay, if_pos (by omega), List.getElem?_eq_none (by omega)]
        rfl

theorem judge_congr {c : List UInt8} (ss : List Slot) {name name' : Mem} (h : ∀ x < 256, name x = name' x) :
    judge c (probes ss name) = judge c (probes ss name') := by
  induction ss generalizing name name' with
  | nil => rfl
  | cons slot ss ih =>
    cases slot with
    | short s =>
      have hs : Spells name c ↔ Spells name' c := by
        refine forall_congr' fun x => forall_congr' fun hx => ?_
        rw [h x hx]
      rw [probes, probes, judge, judge, ih h]
      simp only [hs]
    | long order chars =>
      have ho : ∀ off, ∀ x < 256, overlay name off chars x = overlay name' off chars x := by
        intro off x hx
        unfold overlay
        rw [h x hx]
      rw [probes, probes]
      by_cases h0 : order = 0
      · rw [if_pos h0, if_pos h0]
        by_cases hc : chars = []
        · rw [if_pos hc, if_pos hc]
          exact ih h
        · rw [if_neg hc, if_neg hc]
      · rw [if_neg h0, if_neg h0]
        exact ih (ho _)

end StarOS
