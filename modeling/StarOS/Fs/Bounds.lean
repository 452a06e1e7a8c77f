import StarOS.Fs.Read

/-!
# What `fat32_read` stores (`fat32_read`)

The driver stores 512 bytes, the loop goes on by `bytes_per_sector`.

* `Inside`             the loop returns, and every byte stored in the buffer is before `bound`;
* `Steps`              sectors of 512 bytes or more, or else no read near the end of the buffer succeeds;
* `readLoop_inside_iff`   the loop, by induction on the bytes left: one lemma for each kind of round;
* `stores_inside_iff`  the same for `fat32_read`, after a lookup that answers with an entry.
-/

namespace StarOS
open Lib

variable {m : Medium} {locals : Locals} {pbr : Pbr}

/-- the loop returns, and every byte of the buffer that holds something is before `bound` -/
def Inside (m : Medium) (locals : Locals) (pbr : Pbr) (k c bytes : Nat) (dest : Buf) (off bound : Nat) : Prop :=
  ∃ fuel dest' k', readLoop m locals pbr fuel k c bytes dest off = some (.ok (dest', k')) ∧
    ∀ x, dest' x ≠ none → x < bound

/-- a file of `bytes` bytes, whose reads are numbered `k`, `k + 2`, ..: there is none, or sectors are not
shorter than what the driver stores, or the reads that would store past the file fail -/
def Steps (m : Medium) (pbr : Pbr) (k bytes : Nat) : Prop :=
  bytes = 0 ∨ 512 ≤ pbr.bytesPerSector ∨ (0 < pbr.bytesPerSector ∧
    ∀ j, j * pbr.bytesPerSector < bytes → bytes < j * pbr.bytesPerSector + 512 → m.fails (k + 2 * j) = true)

/-! ## rounds -/

section
variable {k c bytes off bound : Nat} {dest : Buf}

/-- the last round -/
theorem readLoop_last (h0 : bytes ≠ 0) (hb : bytes < pbr.bytesPerSector) (fuel : Nat) :
    readLoop m locals pbr (fuel + 1) k c bytes dest off
      = if pbr.bytesPerSector < 512 ∧ m.fails k = false then some (.error .outOfBounds)
        else some (.ok (copyBytes (readCluster m k c pbr (locals.buffer k)) dest off bytes, k + 1)) := by
  rw [readLoop, if_neg h0, if_pos hb]

/-- a round of `bytes_per_sector` bytes -/
theorem readLoop_round (h0 : bytes ≠ 0) (hb : pbr.bytesPerSector ≤ bytes) (fuel : Nat) :
    readLoop m locals pbr (fuel + 1) k c bytes dest off
      = readLoop m locals pbr fuel (k + 2) (nextCluster m locals (k + 1) c pbr) (bytes - pbr.bytesPerSector)
        (readClusterTo m k c pbr dest off) (off + pbr.bytesPerSector) := by
  rw [readLoop, if_neg h0, if_neg (by omega)]

theorem readLoop_mono {fuel fuel' : Nat} {r : Except Fatal (Buf × Nat)}
    (h : readLoop m locals pbr fuel k c bytes dest off = some r) (hf : fuel ≤ fuel') :
    readLoop m locals pbr fuel' k c bytes dest off = some r := by
  induction fuel generalizing fuel' k c bytes dest off with
  | zero => cases h
  | succ fuel ih =>
    obtain ⟨fuel', rfl⟩ : ∃ f, fuel' = f + 1 := ⟨fuel' - 1, by omega⟩
    rw [readLoop] at h ⊢
    by_cases h0 : bytes = 0
    · rw [if_pos h0] at h ⊢
      exact h
    · rw [if_neg h0] at h ⊢
      by_cases hb : bytes < pbr.bytesPerSector
      · rw [if_pos hb] at h ⊢
        exact h
      · rw [if_neg hb] at h ⊢
        exact ih h (by omega)

/-- the loop never takes a byte out of the buffer -/
theorem readLoop_grows {fuel k' : Nat} {dest' : Buf}
    (h : readLoop m locals pbr fuel k c bytes dest off = some (.ok (dest', k'))) {x : Nat}
    (hx : dest x ≠ none) : dest' x ≠ none := by
  induction fuel generalizing k c bytes dest off with
  | zero => cases h
  | succ fuel ih =>
    by_cases h0 : bytes = 0
    · rw [readLoop, if_pos h0] at h
      cases h
      exact hx
    by_cases hb : bytes < pbr.bytesPerSector
    · rw [readLoop_last h0 hb] at h
      by_cases ho : pbr.bytesPerSector < 512 ∧ m.fails k = false
      · rw [if_pos ho] at h
        cases h
      · rw [if_neg ho] at h
        cases h
        rw [copyBytes_apply]
        split
        · exact Option.some_ne_none _
        · exact hx
    · rw [readLoop_round h0 (by omega)] at h
      refine ih h ?_
      show m.readTo k _ dest off x ≠ none
      unfold Medium.readTo
      split
      · exact hx
      · show (if _ then _ else _) ≠ none
        split
        · exact Option.some_ne_none _
        · exact hx

/-- nothing is left -/
theorem inside_zero (hd : ∀ x, dest x ≠ none → x < bound) : Inside m locals pbr k c 0 dest off bound :=
  ⟨1, dest, k, rfl, hd⟩

/-- the last round: 512 bytes go into an array of `bytes_per_sector` -/
theorem inside_last (h0 : bytes ≠ 0) (hb : bytes < pbr.bytesPerSector) (hbound : off + bytes = bound)
    (hd : ∀ x, dest x ≠ none → x < bound) :
    Inside m locals pbr k c bytes dest off bound ↔ 512 ≤ pbr.bytesPerSector ∨ m.fails k = true := by
  constructor
  · rintro ⟨fuel, dest', k', h, -⟩
    cases fuel with
    | zero => cases h
    | succ fuel =>
      rw [readLoop_last h0 hb] at h
      by_contra hno
      rw [not_or, Nat.not_le, Bool.not_eq_true] at hno
      rw [if_pos hno] at h
      cases h
  · intro h
    refine ⟨1, _, _, (readLoop_last h0 hb 0).trans (if_neg ?_), fun x hx => ?_⟩
    · rintro ⟨h1, h2⟩
      rcases h with h | h
      · omega
      · rw [h2] at h
        cases h
    · rw [copyBytes_apply] at hx
      by_cases hin : off ≤ x ∧ x < off + bytes
      · omega
      · rw [if_neg hin] at hx
        exact hd x hx

theorem inside_round (h0 : bytes ≠ 0) (hb : pbr.bytesPerSector ≤ bytes) :
    Inside m locals pbr k c bytes dest off bound ↔
      Inside m locals pbr (k + 2) (nextCluster m locals (k + 1) c pbr) (bytes - pbr.bytesPerSector)
        (readClusterTo m k c pbr dest off) (off + pbr.bytesPerSector) bound := by
  constructor
  · rintro ⟨fuel, dest', k', h, hin⟩
    cases fuel with
    | zero => cases h
    | succ fuel => exact ⟨fuel, dest', k', (readLoop_round h0 hb fuel).symm.trans h, hin⟩
  · rintro ⟨fuel, dest', k', h, hin⟩
    exact ⟨fuel + 1, dest', k', (readLoop_round h0 hb fuel).trans h, hin⟩

/-- a read that succeeds stores 512 bytes, and they stay -/
theorem inside_room (h : Inside m locals pbr k c bytes (readClusterTo m k' c' pbr dest off) off' bound)
    (hok : m.fails k' = false) : off + 512 ≤ bound := by
  obtain ⟨fuel, dest', k'', h, hin⟩ := h
  have hstored : readClusterTo m k' c' pbr dest off (off + 511) ≠ none := by
    show m.readTo k' _ dest off (off + 511) ≠ none
    unfold Medium.readTo
    rw [if_neg (by rw [hok]; exact Bool.false_ne_true)]
    show (if _ then _ else _) ≠ none
    rw [if_pos (by omega)]
    exact Option.some_ne_none _
  have := hin _ (readLoop_grows h hstored)
  omega

theorem readClusterTo_inside (hd : ∀ x, dest x ≠ none → x < bound) (h : m.fails k = true ∨ off + 512 ≤ bound) :
    ∀ x, readClusterTo m k c pbr dest off x ≠ none → x < bound := by
  intro x hx
  have hx : m.readTo k _ dest off x ≠ none := hx
  unfold Medium.readTo at hx
  by_cases hf : m.fails k = true
  · rw [if_pos hf] at hx
    exact hd x hx
  · rw [if_neg hf] at hx
    by_cases hin : off ≤ x ∧ x < off + 512
    · have := h.resolve_left hf
      omega
    · exact hd x (by rwa [if_neg hin] at hx)

end

/-- sectors of no bytes: the loop never ends -/
theorem readLoop_stuck {fuel k c bytes off : Nat} {dest : Buf} (hz : pbr.bytesPerSector = 0) (h0 : bytes ≠ 0) :
    readLoop m locals pbr fuel k c bytes dest off = none := by
  induction fuel generalizing k c dest off with
  | zero => rfl
  | succ fuel ih =>
    rw [readLoop_round h0 (by omega), hz]
    exact ih

/-! ## the condition -/

theorem steps_last {k bytes : Nat} (h0 : bytes ≠ 0) (hb : bytes < pbr.bytesPerSector) :
    Steps m pbr k bytes ↔ 512 ≤ pbr.bytesPerSector ∨ m.fails k = true := by
  constructor
  · rintro (h | h | ⟨-, h⟩)
    · exact absurd h h0
    · exact .inl h
    · by_cases hbig : 512 ≤ pbr.bytesPerSector
      · exact .inl hbig
      · exact .inr (h 0 (by omega) (by omega))
  · rintro (h | h)
    · exact .inr (.inl h)
    · by_cases hbig : 512 ≤ pbr.bytesPerSector
      · exact .inr (.inl hbig)
      refine .inr (.inr ⟨by omega, fun j h1 _ => ?_⟩)
      obtain rfl : j = 0 := by
        by_contra hj
        have := Nat.le_mul_of_pos_left pbr.bytesPerSector (Nat.pos_of_ne_zero hj)
        omega
      exact h

theorem steps_round {k bytes : Nat} (h0 : bytes ≠ 0) (hpos : 0 < pbr.bytesPerSector)
    (hb : pbr.bytesPerSector ≤ bytes) : Steps m pbr k bytes ↔
      (m.fails k = true ∨ 512 ≤ bytes) ∧ Steps m pbr (k + 2) (bytes - pbr.bytesPerSector) := by
  have hsucc : ∀ j, (j + 1) * pbr.bytesPerSector = j * pbr.bytesPerSector + pbr.bytesPerSector := fun j =>
    Nat.succ_mul j _
  constructor
  · rintro (h | h | ⟨-, h⟩)
    · exact absurd h h0
    · exact ⟨.inr (by omega), .inr (.inl h)⟩
    · refine ⟨?_, .inr (.inr ⟨hpos, fun j h1 h2 => ?_⟩)⟩
      · by_cases hlt : bytes < 512
        · exact .inl (h 0 (by omega) (by omega))
        · exact .inr (by omega)
      · have hj := hsucc j
        have e : k + 2 + 2 * j = k + 2 * (j + 1) := by omega
        rw [e]
        exact h (j + 1) (by omega) (by omega)
  · rintro ⟨h1, h2⟩
    by_cases hbig : 512 ≤ pbr.bytesPerSector
    · exact .inr (.inl hbig)
    refine .inr (.inr ⟨hpos, fun j hj1 hj2 => ?_⟩)
    cases j with
    | zero => exact h1.resolve_right (by omega)
    | succ j =>
      have hj := hsucc j
      have e : k + 2 * (j + 1) = k + 2 + 2 * j := by omega
      rw [e]
      rcases h2 with h2 | h2 | ⟨-, h2⟩
      · omega
      · exact absurd h2 hbig
      · exact h2 j (by omega) (by omega)

theorem readLoop_inside_iff {k c bytes off bound : Nat} {dest : Buf} (hbound : off + bytes = bound)
    (hd : ∀ x, dest x ≠ none → x < bound) :
    Inside m locals pbr k c bytes dest off bound ↔ Steps m pbr k bytes := by
  induction bytes using Nat.strong_induction_on generalizing k c off dest with
  | _ bytes ih =>
    by_cases h0 : bytes = 0
    · subst h0
      exact ⟨fun _ => .inl rfl, fun _ => inside_zero hd⟩
    by_cases hb : bytes < pbr.bytesPerSector
    · rw [inside_last h0 hb hbound hd, steps_last h0 hb]
    · by_cases hpos : 0 < pbr.bytesPerSector
      · rw [inside_round h0 (by omega), steps_round h0 hpos (by omega)]
        constructor
        · intro h
          have hroom : m.fails k = true ∨ 512 ≤ bytes := by
            cases hf : m.fails k with
            | true => exact .inl rfl
            | false =>
              have := inside_room h hf
              exact .inr (by omega)
          refine ⟨hroom, (ih _ (by omega) (by omega) ?_).mp h⟩
          exact readClusterTo_inside hd (hroom.imp id (by omega))
        · rintro ⟨hroom, h⟩
          refine (ih _ (by omega) (by omega) ?_).mpr h
          exact readClusterTo_inside hd (hroom.imp id (by omega))
      · -- sectors of no bytes: the loop never ends
        have hz : pbr.bytesPerSector = 0 := by omega
        constructor
        · rintro ⟨fuel, dest', k', h, -⟩
          rw [readLoop_stuck hz h0] at h
          cases h
        · rintro (h | h | ⟨h, -⟩)
          · exact absurd h h0
          · omega
          · omega

/-! ## `fat32_read` -/

theorem getDirEntry_locate (fuel k : Nat) (pathname : Mem) :
    getDirEntry m locals fuel k pathname
      = locateFileDirent m locals (loadPbr m locals k) fuel (k + 2) 2 (removeMountPoint pathname [0x2f]) := rfl

theorem getDirEntry_more {fuel fuel' k : Nat} {pathname : Mem} {r : Except Fatal (DirEntry × Nat)}
    (h : getDirEntry m locals fuel k pathname = some r) (hf : fuel ≤ fuel') :
    getDirEntry m locals fuel' k pathname = some r := by
  rw [getDirEntry_locate] at h ⊢
  exact locateFileDirent_mono h hf

/-- behind a lookup that answers, `fat32_read` is its loop -/
theorem fat32Read_ok {fuel k k' k'' : Nat} {filename : Mem} {e : DirEntry} {dest dest' : Buf} {r : Int}
    (h : getDirEntry m locals fuel k filename = some (.ok (e, k'))) :
    fat32Read m locals fuel k filename dest = some (.ok (r, dest', k'')) ↔ r = 0 ∧
      readLoop m locals (loadPbr m locals k') fuel (k' + 2) e.firstClusterNumber e.size dest 0
        = some (.ok (dest', k'')) := by
  unfold fat32Read
  rw [h]
  simp only
  cases readLoop m locals (loadPbr m locals k') fuel (k' + 2) e.firstClusterNumber e.size dest 0 with
  | none => simp
  | some o =>
    cases o with
    | error f => simp
    | ok p =>
      simp only [Option.some.injEq, Except.ok.injEq, Prod.mk.injEq]
      constructor
      · rintro ⟨rfl, rfl, rfl⟩
        exact ⟨rfl, rfl⟩
      · rintro ⟨rfl, rfl⟩
        exact ⟨rfl, rfl, rfl⟩

/-- `fat32_read` returns, with what it stores inside the file, exactly if its loop does -/
theorem stores_iff_inside {fuel k k' : Nat} {filename : Mem} {e : DirEntry}
    (hlookup : getDirEntry m locals fuel k filename = some (.ok (e, k'))) :
    (∃ fuel' dest k'', fat32Read m locals fuel' k filename (fun _ => none) = some (.ok (0, dest, k'')) ∧
      ∀ x, dest x ≠ none → x < e.size) ↔
    Inside m locals (loadPbr m locals k') (k' + 2) e.firstClusterNumber e.size (fun _ => none) 0 e.size := by
  constructor
  · rintro ⟨fuel', dest, k'', h, hin⟩
    cases hl : getDirEntry m locals fuel' k filename with
    | none =>
      unfold fat32Read at h
      rw [hl] at h
      cases h
    | some r =>
      -- more fuel does not change what the lookup answers
      have h1 := getDirEntry_more hl (Nat.le_max_left fuel' fuel)
      rw [getDirEntry_more hlookup (Nat.le_max_right fuel' fuel)] at h1
      rw [← Option.some.inj h1] at hl
      exact ⟨fuel', dest, k'', ((fat32Read_ok hl).mp h).2, hin⟩
  · rintro ⟨fuel', dest, k'', h, hin⟩
    have hl := getDirEntry_more hlookup (Nat.le_max_left fuel fuel')
    exact ⟨max fuel fuel', dest, k'',
      (fat32Read_ok hl).mpr ⟨rfl, readLoop_mono h (Nat.le_max_right ..)⟩, hin⟩

/-- **After a lookup that answers with an entry of `s` bytes, `fat32_read` returns, with every byte it
stores inside `dest[0, s)` or its own array, if and only if the file is empty, or sectors have at least
512 bytes, or they have fewer (but some) and every read of the last 511 bytes of the file fails.** -/
theorem stores_inside_iff (m : Medium) (locals : Locals) (fuel k k' : Nat) (filename : Mem) (e : DirEntry)
    (hlookup : getDirEntry m locals fuel k filename = some (.ok (e, k'))) :
    (∃ fuel' dest k'', fat32Read m locals fuel' k filename (fun _ => none) = some (.ok (0, dest, k'')) ∧
      ∀ x, dest x ≠ none → x < e.size) ↔ Steps m (loadPbr m locals k') (k' + 2) e.size :=
  (stores_iff_inside hlookup).trans
    (readLoop_inside_iff (Nat.zero_add e.size) fun _ hx => absurd rfl hx)

/-- every sector is boot record and directory at once: sectors of `256 * b` bytes, and an entry with the
empty name, of five bytes -/
def onePage (b : UInt8) : Medium := ⟨fun _ y => if y = 12 then b else if y = 28 then 5 else 0, fun _ => false⟩

/-- the path `///`: the component behind the mount point is empty -/
def slashes : Mem := fun i => if i < 3 then 0x2f else 0

theorem stores_inside_five : ∃ e k', getDirEntry (onePage 2) Image.locals 1 0 slashes = some (.ok (e, k')) ∧
    ∃ fuel' dest k'', fat32Read (onePage 2) Image.locals fuel' 0 slashes (fun _ => none)
        = some (.ok (0, dest, k'')) ∧ ∀ x, dest x ≠ none → x < e.size := by
  have h : ∃ e, getDirEntry (onePage 2) Image.locals 1 0 slashes = some (.ok (e, 3)) := ⟨_, rfl⟩
  obtain ⟨e, h⟩ := h
  refine ⟨e, 3, h, ?_⟩
  exact (stores_inside_iff _ _ 1 0 3 _ e h).mpr (.inr (.inl (by decide)))

/-- sectors of 256 bytes: 512 bytes are stored in the array of 256 -/
theorem short_sector_overrun : ¬ ∀ (m : Medium) (locals : Locals) (fuel k k' : Nat) (filename : Mem) (e : DirEntry),
    getDirEntry m locals fuel k filename = some (.ok (e, k')) →
    ∃ fuel' dest k'', fat32Read m locals fuel' k filename (fun _ => none) = some (.ok (0, dest, k'')) ∧
      ∀ x, dest x ≠ none → x < e.size := by
  intro hall
  have h : ∃ e, getDirEntry (onePage 1) Image.locals 1 0 slashes = some (.ok (e, 3)) ∧ e.size = 5 :=
    ⟨_, rfl, rfl⟩
  obtain ⟨e, h, hsize⟩ := h
  have hin := (stores_iff_inside h).mp (hall _ _ _ _ _ _ e h)
  rw [readLoop_inside_iff (Nat.zero_add e.size) fun _ hx => absurd rfl hx, hsize] at hin
  rcases hin with h | h | ⟨-, h⟩
  · cases h
  · exact absurd h (by decide)
  · exact absurd (h 0 (by decide) (by decide)) (by decide)

end StarOS
