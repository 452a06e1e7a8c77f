import StarOS.Disk.Read

/-!
# Reads of more than 256 sectors (`read_ide_disk_sector`)

Such a read is made in rounds of 256 sectors.  Between two rounds the address advances by 256 sectors,
the buffer by 512 bytes.

* `rounds_frame`       a round and those after it leave what is before their place in the buffer;
* `rounds_first`       what they leave there: the first byte of their first sector;
* `rounds_delivered_iff`   on every drive all sectors are delivered exactly when one round is enough and
                       the drive register holds no other address bits.
-/

namespace StarOS

/-- the call stores the sectors asked for, and nothing else, when it returns 0 -/
def Ide.Delivers (s : Ide) (portBase : Nat) (isMaster : Bool) (lba count : Nat) (dest : Buf) : Prop :=
  ∀ r, readIdeDiskSector s portBase isMaster lba count dest 0 = some r → r.1 = 0 → ∀ i, r.2.2 i =
    if i < 512 * count then some (s.drive.sectors (lba + i / 512) (i % 512)) else dest i

/-- the same driver, with other sectors on the drive and other statuses to come -/
def Ide.withDrive (s : Ide) (sectors : Nat → Nat → UInt8) (status : List UInt8) : Ide :=
  { s with drive := { s.drive with sectors := sectors, status := status } }

section
variable {portBase : Nat} {isMaster : Bool}

/-! ## rounds -/

theorem rounds_some {s : Ide} {lba count : Nat} {dest : Buf} {off : Nat} {r : Int × Ide × Buf}
    (h : readIdeDiskSector s portBase isMaster lba count dest off = some r) :
    ∃ t, readChunk s portBase isMaster lba (min count 256) dest off = some t ∧
      (t = r ∧ ¬ (t.1 = 0 ∧ 256 < count) ∨ 256 < count ∧ t.1 = 0 ∧ readIdeDiskSector t.2.1 portBase isMaster (wrap64 (lba + 256))
        (count - 256) t.2.2 (off + 512) = some r) := by
  rw [readIdeDiskSector] at h
  obtain ⟨t, ht, h⟩ := Option.bind_eq_some_iff.mp h
  refine ⟨t, ht, ?_⟩
  by_cases hc : t.1 = 0 ∧ count > 256
  · rw [if_pos hc] at h
    exact .inr ⟨hc.2, hc.1, h⟩
  · rw [if_neg hc] at h
    exact .inl ⟨Option.some.inj h, hc⟩

/-- what lies before the place of a round is left as it is -/
theorem rounds_frame {s : Ide} {lba count : Nat} {dest : Buf} {off : Nat} {r : Int × Ide × Buf}
    (hc : 1 ≤ count) (h : readIdeDiskSector s portBase isMaster lba count dest off = some r) :
    ∀ i < off, r.2.2 i = dest i := by
  induction count using Nat.strong_induction_on generalizing s lba dest off r with
  | h count ih =>
    intro i hi
    obtain ⟨t, ht, hrest⟩ := rounds_some h
    have hfirst : t.2.2 i = dest i := by
      by_cases h0 : t.1 = 0
      · rw [(readChunk_some (by omega) (by omega) ht).2.2.2 h0, if_neg (by omega)]
      · rw [readChunk_failed ht h0]
    rcases hrest with ⟨rfl, -⟩ | ⟨hlt, -, hrest⟩
    · exact hfirst
    · rw [ih (count - 256) (by omega) (by omega) hrest i (by omega), hfirst]

/-- the first byte a round stores stays -/
theorem rounds_first {s : Ide} {lba count : Nat} {dest : Buf} {off : Nat} {r : Int × Ide × Buf}
    (hc : 1 ≤ count) (h : readIdeDiskSector s portBase isMaster lba count dest off = some r) (h0 : r.1 = 0) :
    r.2.2 off = some (s.drive.sectors (s.topFor portBase isMaster lba * 2^24 + lba % 2^24) 0) := by
  obtain ⟨t, ht, hrest⟩ := rounds_some h
  have hfirst : t.1 = 0 → t.2.2 off
      = some (s.drive.sectors (s.topFor portBase isMaster lba * 2^24 + lba % 2^24) 0) := by
    intro ht0
    rw [(readChunk_some (by omega) (by omega) ht).2.2.2 ht0, if_pos (by omega), Nat.sub_self,
      Nat.zero_div, Nat.zero_mod, Nat.add_zero]
  rcases hrest with ⟨rfl, -⟩ | ⟨hlt, ht0, hrest⟩
  · exact hfirst h0
  · rw [rounds_frame (by omega) hrest off (by omega), hfirst ht0]

/-- with enough statuses a call returns 0 -/
theorem rounds_drq {s : Ide} {n count : Nat} (hn : count ≤ n) (hs : s.DrqLeft portBase isMaster (n + 1))
    (lba : Nat) (dest : Buf) (off : Nat) :
    ∃ r, readIdeDiskSector s portBase isMaster lba count dest off = some r ∧ r.1 = 0 := by
  induction count using Nat.strong_induction_on generalizing s n lba dest off with
  | h count ih =>
    obtain ⟨t, dest', ht, hst, hsel⟩ := readChunk_drq hs lba (min count 256) dest off
    rw [readIdeDiskSector, ht, Option.bind_some]
    by_cases hc : 256 < count
    · rw [if_pos ⟨rfl, hc⟩]
      obtain ⟨m, rfl⟩ : ∃ m, n = m + 1 := ⟨n - 1, by omega⟩
      refine ih (count - 256) (by omega) (n := m) (by omega) ?_ _ _ _
      rw [Ide.DrqLeft, if_pos hsel]
      exact hst
    · rw [if_neg fun h => hc h.2]
      exact ⟨_, rfl, rfl⟩

/-! ## what is delivered -/

/-- one round is enough -/
theorem delivers_of_small {s : Ide} {lba count : Nat} {dest : Buf} (hin : lba + count ≤ 2^24)
    (hc : count = 0 ∨ count ≤ 256 ∧ s.topFor portBase isMaster lba = 0) :
    s.Delivers portBase isMaster lba count dest := by
  intro r hr h0 i
  rw [read_small (by omega)] at hr
  by_cases hz : count = 0
  · subst hz
    obtain ⟨t, -, hr⟩ := Option.bind_eq_some_iff.mp hr
    obtain ⟨u, -, hr⟩ := Option.map_eq_some_iff.mp hr
    rw [if_neg (Nat.not_lt_zero i)]
    by_cases hb : u.1 &&& DRQ ≠ 0
    · rw [if_pos hb] at hr
      rw [← hr]
      rfl
    · rw [if_neg hb] at hr
      rw [← hr]
  · obtain ⟨hc, htop⟩ := hc.resolve_left hz
    have e : lba % 2^24 = lba := Nat.mod_eq_of_lt (by omega)
    rw [(readChunk_some (by omega) hc hr).2.2.2 h0 i, htop, e, Nat.zero_mul, Nat.zero_add, Nat.zero_add,
      Nat.sub_zero]
    simp only [Nat.zero_le, true_and]

/-- a byte that is not stored where it belongs: the sectors `lba` on the drive hold 1, all others 0 -/
theorem first_wrong {s : Ide} {lba count sector : Nat} {dest : Buf} {i : Nat}
    (hd : ∀ sectors status, (s.withDrive sectors status).Delivers portBase isMaster lba count dest)
    (hi : i < 512 * count) (hsec : sector = lba + i / 512) :
    ∃ t r, t.drive.sectors = (fun l _ => if l = sector then 1 else 0) ∧
      t.topFor portBase isMaster = s.topFor portBase isMaster ∧
      readIdeDiskSector t portBase isMaster lba count dest 0 = some r ∧ r.1 = 0 ∧ r.2.2 i = some 1 := by
  let status := List.replicate (if s.SelectedFor portBase isMaster then count + 1 else count + 1 + 15) DRQ
  let t := s.withDrive (fun l _ => if l = sector then 1 else 0) status
  have hleft : t.DrqLeft portBase isMaster (count + 1) := rfl
  obtain ⟨r, hr, h0⟩ := rounds_drq (Nat.le_refl count) hleft lba dest 0
  refine ⟨t, r, rfl, rfl, hr, h0, ?_⟩
  rw [hd _ _ r hr h0 i, if_pos hi, hsec]
  exact congrArg some (if_pos rfl)

theorem small_of_delivers {s : Ide} {lba count : Nat} {dest : Buf} (hin : lba + count ≤ 2^24)
    (hd : ∀ sectors status, (s.withDrive sectors status).Delivers portBase isMaster lba count dest) :
    count = 0 ∨ count ≤ 256 ∧ s.topFor portBase isMaster lba = 0 := by
  by_contra hn
  have h1 : 1 ≤ count := by omega
  by_cases hbig : 256 < count
  · -- the second round stores its first sector where sector `lba + 1` belongs
    obtain ⟨t, r, hsec, -, hr, h0, hbyte⟩ := first_wrong (i := 512) hd (by omega) rfl
    obtain ⟨u, hu, hrest⟩ := rounds_some hr
    rcases hrest with ⟨rfl, hlast⟩ | ⟨-, hu0, hrest⟩
    · exact hlast ⟨h0, hbig⟩
    · have hstored := rounds_first (by omega) hrest h0
      have hw : wrap64 (lba + 256) = lba + 256 := Nat.mod_eq_of_lt (by omega)
      rw [Nat.zero_add, hbyte, (readChunk_some (by omega) (by omega) hu).2.1, hsec, hw] at hstored
      have hne : ¬ u.2.1.topFor portBase isMaster (lba + 256) * 2^24 + (lba + 256) % 2^24 = lba + 512 / 512 := by
        omega
      exact absurd (Option.some.inj (hstored.trans (congrArg some (if_neg hne)))) (by decide)
  · have htop : s.topFor portBase isMaster lba ≠ 0 := fun e => hn (.inr ⟨by omega, e⟩)
    obtain ⟨t, r, hsec, htop', hr, h0, hbyte⟩ := first_wrong (i := 0) hd (by omega) rfl
    have hstored := rounds_first h1 hr h0
    rw [hbyte, hsec, htop'] at hstored
    have hne : ¬ s.topFor portBase isMaster lba * 2^24 + lba % 2^24 = lba + 0 / 512 := by omega
    exact absurd (Option.some.inj (hstored.trans (congrArg some (if_neg hne)))) (by decide)

end

/-- **On every drive a call that returns 0 has stored the sectors asked for, and nothing else, exactly when
at most 256 sectors are asked for and, if the drive is selected already, bits 24 to 27 of its drive register
are 0.**  For a count of 0 nothing is stored. -/
theorem rounds_delivered_iff (portBase : Nat) (isMaster : Bool) (s : Ide) (lba count : Nat) (dest : Buf)
    (hin : lba + count ≤ 2^24) :
    (∀ sectors status, (s.withDrive sectors status).Delivers portBase isMaster lba count dest) ↔
      count = 0 ∨ count ≤ 256 ∧ (s.SelectedFor portBase isMaster → s.drive.drive % 16 = 0) := by
  have htop : s.topFor portBase isMaster lba = 0 ∨ count = 0 ↔
      (s.SelectedFor portBase isMaster → s.drive.drive % 16 = 0) ∨ count = 0 := by
    unfold Ide.topFor
    by_cases hs : s.SelectedFor portBase isMaster
    · rw [if_pos hs]
      simp [hs]
    · rw [if_neg hs]
      simp only [hs, false_implies, true_or, iff_true]
      omega
  constructor
  · intro hd
    rcases small_of_delivers hin hd with h0 | ⟨hle, ht⟩
    · exact .inl h0
    · exact (htop.mp (.inl ht)).elim (fun h => .inr ⟨hle, h⟩) .inl
  · intro hc sectors status
    refine delivers_of_small hin ?_
    rcases hc with h0 | ⟨hle, ht⟩
    · exact .inl h0
    · exact (htop.mpr (.inl ht)).elim (fun h => .inr ⟨hle, h⟩) .inl

/-- the driver before the first call -/
def Ide.boot : Ide := (Disk.boot (fun _ => 0) (markedDrive 0)).ide

theorem rounds_delivered_one : 0 + 1 ≤ 2^24 ∧
    ∀ sectors status, (Ide.boot.withDrive sectors status).Delivers 0x1f0 true 0 1 fun _ => none :=
  ⟨by decide, (rounds_delivered_iff 0x1f0 true Ide.boot 0 1 _ (by decide)).mpr
    (.inr ⟨by decide, fun h => absurd h.1 (by decide)⟩)⟩

/-- the 257th sector is stored over the second -/
theorem rounds_overlap : ¬ ∀ (portBase : Nat) (isMaster : Bool) (s : Ide) (lba count : Nat) (dest : Buf),
    lba + count ≤ 2^24 → s.Delivers portBase isMaster lba count dest := by
  intro hall
  have hd : ∀ sectors status, (Ide.boot.withDrive sectors status).Delivers 0x1f0 true 0 257 fun _ => none :=
    fun sectors status => hall _ _ _ 0 257 _ (by decide)
  rcases small_of_delivers (by decide) hd with h | ⟨h, -⟩
  · cases h
  · exact absurd h (by decide)

end StarOS
