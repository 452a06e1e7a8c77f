import StarOS.Fs.Bounds
import StarOS.Fs.Search

/-!
# Reads that fail (`read_cluster`, `next_cluster`, `load_PBR`, `fs_read`)

None of the callers of `read_disk_sector` looks at what it returns.

* `loopReads b n`      how many sectors the loop of `fat32_read` reads for `n` bytes, `b` in a sector;
* `Stuck`              when the loop does not return;
* `readLoop_returns`   it returns in all other cases, after that many reads, whatever they are;
* `Reports`            a failed read shows in what `fs_read` returns;
* `reports_iff`        it does so only where no read fails, or nothing is returned.
-/

namespace StarOS
open Lib

/-- two reads for each whole sector, the data and the table, and one for the rest -/
def loopReads (b n : Nat) : Nat := 2 * (n / b) + if n % b = 0 then 0 else 1

/-- sectors of no bytes, or the rest of the file is read into an array shorter than 512 bytes -/
def Stuck (m : Medium) (b k n : Nat) : Prop :=
  n ≠ 0 ∧ (b = 0 ∨ n % b ≠ 0 ∧ b < 512 ∧ m.fails (k + 2 * (n / b)) = false)

section
variable {m : Medium} {locals : Locals} {pbr : Pbr}

theorem loopReads_zero (b : Nat) : loopReads b 0 = 0 := by
  rw [loopReads, Nat.zero_div, Nat.zero_mod, if_pos rfl]

theorem loopReads_rest {b n : Nat} (h0 : n ≠ 0) (hb : n < b) : loopReads b n = 1 := by
  rw [loopReads, Nat.div_eq_of_lt hb, Nat.mod_eq_of_lt hb, if_neg h0]

theorem loopReads_sector {b n : Nat} (hpos : 0 < b) (hb : b ≤ n) : loopReads b n = 2 + loopReads b (n - b) := by
  rw [loopReads, loopReads, Nat.div_eq_sub_div hpos hb, Nat.mod_eq_sub_mod hb]
  omega

theorem stuck_rest {b k n : Nat} (h0 : n ≠ 0) (hb : n < b) : Stuck m b k n ↔ b < 512 ∧ m.fails k = false := by
  have hpos : b ≠ 0 := by omega
  rw [Stuck, Nat.div_eq_of_lt hb, Nat.mod_eq_of_lt hb]
  exact ⟨fun h => (h.2.resolve_left hpos).2, fun h => ⟨h0, .inr ⟨h0, h⟩⟩⟩

theorem stuck_sector {b k n : Nat} (hpos : 0 < b) (hb : b ≤ n) : Stuck m b k n ↔ Stuck m b (k + 2) (n - b) := by
  have hmod : n % b = (n - b) % b := Nat.mod_eq_sub_mod hb
  have hread : k + 2 * (n / b) = k + 2 + 2 * ((n - b) / b) := by
    rw [Nat.div_eq_sub_div hpos hb]
    omega
  rw [Stuck, Stuck, hmod, hread]
  constructor
  · rintro ⟨-, h⟩
    refine ⟨fun hn => ?_, h⟩
    rw [hn, Nat.zero_mod] at h
    exact h.elim (by omega) fun h => h.1 rfl
  · rintro ⟨-, h⟩
    exact ⟨by omega, h⟩

theorem readLoop_reads {fuel k k' c n off : Nat} {dest dest' : Buf}
    (h : readLoop m locals pbr fuel k c n dest off = some (.ok (dest', k'))) :
    ¬ Stuck m pbr.bytesPerSector k n ∧ k' = k + loopReads pbr.bytesPerSector n := by
  induction fuel generalizing k c n dest off with
  | zero => cases h
  | succ fuel ih =>
    by_cases h0 : n = 0
    · rw [readLoop, if_pos h0] at h
      cases h
      rw [h0, loopReads_zero]
      exact ⟨fun hs => hs.1 rfl, rfl⟩
    by_cases hb : n < pbr.bytesPerSector
    · rw [readLoop_last h0 hb] at h
      rw [stuck_rest h0 hb, loopReads_rest h0 hb]
      by_cases ho : pbr.bytesPerSector < 512 ∧ m.fails k = false
      · rw [if_pos ho] at h
        cases h
      · rw [if_neg ho] at h
        cases h
        exact ⟨ho, rfl⟩
    · rw [readLoop_round h0 (by omega)] at h
      obtain ⟨hs, hk⟩ := ih h
      have hpos : 0 < pbr.bytesPerSector := by
        -- with no bytes in a sector the next round is the same again
        by_contra hzero
        exact hs ⟨by omega, .inl (by omega)⟩
      rw [stuck_sector hpos (by omega), loopReads_sector hpos (by omega)]
      exact ⟨hs, by omega⟩

theorem readLoop_returns {n : Nat} {k : Nat} (h : ¬ Stuck m pbr.bytesPerSector k n) (c : Nat) (dest : Buf)
    (off : Nat) : ∃ fuel dest', readLoop m locals pbr fuel k c n dest off
      = some (.ok (dest', k + loopReads pbr.bytesPerSector n)) := by
  induction n using Nat.strong_induction_on generalizing k c dest off with
  | h n ih =>
    by_cases h0 : n = 0
    · refine ⟨1, dest, ?_⟩
      rw [readLoop, if_pos h0, h0, loopReads_zero]
      rfl
    by_cases hb : n < pbr.bytesPerSector
    · rw [stuck_rest h0 hb] at h
      refine ⟨1, copyBytes (readCluster m k c pbr (locals.buffer k)) dest off n, ?_⟩
      rw [readLoop_last h0 hb, if_neg h, loopReads_rest h0 hb]
    · have hpos : 0 < pbr.bytesPerSector := by
        by_contra hzero
        exact h ⟨h0, .inl (by omega)⟩
      rw [stuck_sector hpos (by omega)] at h
      obtain ⟨fuel, dest', hr⟩ := ih (n - pbr.bytesPerSector) (by omega) h
        (nextCluster m locals (k + 1) c pbr) (readClusterTo m k c pbr dest off) (off + pbr.bytesPerSector)
      refine ⟨fuel + 1, dest', ?_⟩
      rw [readLoop_round h0 (by omega), loopReads_sector hpos (by omega), ← Nat.add_assoc]
      exact hr

/-! ## `fs_read` -/

/-- a call that returns answers 0, behind a lookup and the loop -/
theorem fsRead_returns {fuel k k'' : Nat} {filename : Mem} {dest dest' : Buf} {r : Int}
    (h : fsRead m locals fuel k filename dest = some (.ok (r, dest', k''))) :
    ∃ e k', r = 0 ∧ getDirEntry m locals fuel k filename = some (.ok (e, k')) ∧
      readLoop m locals (loadPbr m locals k') fuel (k' + 2) e.firstClusterNumber e.size dest 0
        = some (.ok (dest', k'')) := by
  change fat32Read m locals fuel k filename dest = _ at h
  cases hl : getDirEntry m locals fuel k filename with
  | none =>
    unfold fat32Read at h
    rw [hl] at h
    cases h
  | some o =>
    cases o with
    | error f =>
      unfold fat32Read at h
      rw [hl] at h
      cases h
    | ok p =>
      obtain ⟨hr, hloop⟩ := (fat32Read_ok hl).mp h
      exact ⟨p.1, p.2, hr, rfl, hloop⟩

end

/-- if a read of the call fails, the call does not return 0 -/
def Reports (m : Medium) (locals : Locals) (k : Nat) (filename : Mem) (dest : Buf) : Prop :=
  ∀ fuel r dest' k', fsRead m locals fuel k filename dest = some (.ok (r, dest', k')) →
    (∃ j, k ≤ j ∧ j < k' ∧ m.fails j = true) → r ≠ 0

/-- **A failed read never shows in what `fs_read` returns**: where the lookup finds an entry and the loop
returns, none of the reads may fail. -/
theorem reports_iff (m : Medium) (locals : Locals) (k : Nat) (filename : Mem) (dest : Buf) :
    Reports m locals k filename dest ↔
      ∀ fuel e k', getDirEntry m locals fuel k filename = some (.ok (e, k')) →
        Stuck m (loadPbr m locals k').bytesPerSector (k' + 2) e.size ∨
        ∀ j, k ≤ j → j < k' + 2 + loopReads (loadPbr m locals k').bytesPerSector e.size → m.fails j = false := by
  constructor
  · intro h fuel e k' hl
    by_cases hs : Stuck m (loadPbr m locals k').bytesPerSector (k' + 2) e.size
    · exact .inl hs
    · refine .inr fun j hj hj' => ?_
      obtain ⟨fuel', dest', hloop⟩ := readLoop_returns hs e.firstClusterNumber dest 0
      have hr : fsRead m locals (max fuel fuel') k filename dest = _ :=
        (fat32Read_ok (getDirEntry_more hl (Nat.le_max_left ..))).mpr ⟨rfl, readLoop_mono hloop (Nat.le_max_right ..)⟩
      by_contra hf
      exact h _ _ _ _ hr ⟨j, hj, hj', Bool.eq_true_of_not_eq_false hf⟩ rfl
  · rintro h fuel r dest' k'' hr ⟨j, hj, hj', hf⟩
    obtain ⟨e, k', -, hl, hloop⟩ := fsRead_returns hr
    obtain ⟨hs, hk⟩ := readLoop_reads hloop
    have hj0 := (h fuel e k' hl).resolve_left hs j hj (by omega)
    rw [hf] at hj0
    cases hj0

/-- a file of five bytes, the last read of which fails -/
theorem failed_read_returns_zero : ¬ ∀ (m : Medium) (locals : Locals) (k : Nat) (filename : Mem) (dest : Buf),
    Reports m locals k filename dest := by
  intro hall
  have hr : ∃ dest', fsRead ⟨(onePage 2).sector, fun j => j == 5⟩ Image.locals 1 0 slashes (fun _ => none)
      = some (.ok (0, dest', 6)) := ⟨_, rfl⟩
  obtain ⟨dest', hr⟩ := hr
  exact hall _ _ _ _ _ 1 0 dest' 6 hr ⟨5, by decide, by decide, rfl⟩ rfl

end StarOS
