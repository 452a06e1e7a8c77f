import Mathlib.Logic.Function.Iterate
import StarOS.Disk.Read
import StarOS.Fs.Fat32

/-!
# FAT32 volumes and what the reader does on them

A `Volume` is a FAT32 volume with one 512-byte sector to a cluster: where its partition starts, the
sizes of its areas, and the FAT as a function.  The clusters of a file are the iterates of `fat` at
its first cluster.  `v.On m`: the medium `m` holds the volume, and its reads succeed.

* `loadPbr_eq`         the boot record is the volume's, whatever the locals held;
* `clusterSector_eq`   `read_cluster` reads the sector of the cluster;
* `fatSector_eq`       `next_cluster` reads the sector of the FAT entry **modulo `2^32`**;
* `follow_eq`          along a chain whose entries have 32-bit sector numbers, `next_cluster`
                       follows the FAT;
* `readLoop_total`, `readLoop_apply`   the loop of `fat32_read` returns, and has stored the bytes of
                       the clusters that `next_cluster` leads to, and no others.
-/

namespace StarOS
open Lib

/-- a FAT32 volume: the boot sector is reserved, there is a FAT, and the partition table is not part
of it; the top four bits of a FAT entry are zero -/
structure Volume where
  lba : Nat
  reserved : Nat
  numFAT : Nat
  fatSize : Nat
  fat : Nat → Nat
  lba_pos : 0 < lba
  lba_lt : lba < 2^32
  reserved_pos : 0 < reserved
  reserved_lt : reserved < 2^16
  numFAT_pos : 0 < numFAT
  numFAT_lt : numFAT < 2^8
  fatSize_lt : fatSize < 2^32
  fat_lt : ∀ c, fat c < 2^28

namespace Volume

/-- the sector of a cluster -/
def clusterAt (v : Volume) (c : Nat) : Nat := v.lba + v.reserved + v.numFAT * v.fatSize + (c - 2)

/-- the sector of a FAT entry -/
def fatAt (v : Volume) (c : Nat) : Nat := v.lba + v.reserved + c / 128

/-- cluster number `i` of the chain that starts at `c` -/
def chain (v : Volume) (c i : Nat) : Nat := v.fat^[i] c

/-- the number of a cluster that can hold data, neither "bad" nor "end of chain" -/
def IsData (v : Volume) (c : Nat) : Prop := 2 ≤ c ∧ c < 0x0ffffff7 ∧ c < 128 * v.fatSize

/-- the chain from `c` has the clusters that `size` bytes need -/
def HasClusters (v : Volume) (c size : Nat) : Prop := ∀ i, 512 * i < size → v.IsData (v.chain c i)

/-- byte `i` of the concatenation of the clusters of the chain from `c` -/
def fileByte (v : Volume) (m : Medium) (c i : Nat) : UInt8 :=
  m.sector (v.clusterAt (v.chain c (i / 512))) (i % 512)

/-- the boot record of the volume -/
def pbr (v : Volume) : Pbr := ⟨512, 1, v.reserved, v.numFAT, 0, v.lba, v.fatSize⟩

/-- the medium holds the volume -/
structure On (v : Volume) (m : Medium) : Prop where
  reads : ∀ k, m.fails k = false
  partition : read32 (m.sector 0) (0x1be + 8) = v.lba
  pbr : Pbr.ofBuffer (m.sector v.lba) = v.pbr
  rootDirectory : read32 (m.sector v.lba) 44 = 2
  fat : ∀ c, c < 128 * v.fatSize → read32 (m.sector (v.fatAt c)) (4 * (c % 128)) = v.fat c

end Volume

variable {m : Medium} {v : Volume}

/-! ## single reads -/

theorem readInto_apply (h : ∀ k, m.fails k = false) (k n x : Nat) (buffer : Mem) (hx : x < 512) :
    m.readInto k n buffer x = m.sector n x := by
  unfold Medium.readInto
  rw [h k, if_neg Bool.false_ne_true, if_pos hx]

theorem read32_readInto (h : ∀ k, m.fails k = false) (k n a : Nat) (buffer : Mem) (ha : a + 4 ≤ 512) :
    read32 (m.readInto k n buffer) a = read32 (m.sector n) a :=
  read32_congr fun x _ hx => readInto_apply h k n x buffer (by omega)

theorem read16_readInto (h : ∀ k, m.fails k = false) (k n a : Nat) (buffer : Mem) (ha : a + 2 ≤ 512) :
    read16 (m.readInto k n buffer) a = read16 (m.sector n) a := by
  unfold read16
  rw [readInto_apply h k n a buffer (by omega), readInto_apply h k n (a + 1) buffer (by omega)]

theorem ofBuffer_readInto (h : ∀ k, m.fails k = false) (k n : Nat) (buffer : Mem) :
    Pbr.ofBuffer (m.readInto k n buffer) = Pbr.ofBuffer (m.sector n) := by
  unfold Pbr.ofBuffer
  rw [read16_readInto h k n 11 buffer (by omega), readInto_apply h k n 13 buffer (by omega),
    read16_readInto h k n 14 buffer (by omega), readInto_apply h k n 16 buffer (by omega),
    read16_readInto h k n 22 buffer (by omega), read32_readInto h k n 28 buffer (by omega),
    read32_readInto h k n 36 buffer (by omega)]

theorem loadPbr_eq (h : v.On m) (locals : Locals) (k : Nat) : loadPbr m locals k = v.pbr := by
  show Pbr.ofBuffer (m.readInto (k + 1) (read32 (m.readInto k 0 (locals.buffer k)) (0x1be + 8))
    (m.readInto k 0 (locals.buffer k))) = v.pbr
  rw [read32_readInto h.reads k 0 (0x1be + 8) _ (by omega), h.partition, ofBuffer_readInto h.reads, h.pbr]

theorem getDirEntry_eq (h : v.On m) (locals : Locals) (fuel k : Nat) (pathname : Mem) :
    getDirEntry m locals fuel k pathname
      = locateFileDirent m locals v.pbr fuel (k + 2) 2 (removeMountPoint pathname [0x2f]) := by
  unfold getDirEntry
  rw [loadPbr_eq h]
  rfl

/-! ## sector numbers -/

theorem dataStart_lt (v : Volume) : v.reserved + v.numFAT * v.fatSize < 2^41 := by
  have h1 := v.reserved_lt
  have h2 : v.numFAT * v.fatSize ≤ 2^8 * 2^32 :=
    Nat.mul_le_mul (Nat.le_of_lt v.numFAT_lt) (Nat.le_of_lt v.fatSize_lt)
  omega

/-- with the sector number of cluster 2 as the origin, an `int` apart -/
theorem clusterSector_pbr (v : Volume) (c : Nat) :
    v.pbr.clusterSector c
      = ((Int.bmod ((c : Int) - 2) (2^32) + (v.lba + v.reserved + v.numFAT * v.fatSize : Nat)) % 2^64).toNat := by
  have h := dataStart_lt v
  have e : v.pbr.clusterSector c = ((Int.bmod (((c : Int) - 2) * ((1 : Nat) : Int)) (2^32)
      + (wrap64 (v.reserved + v.numFAT * v.fatSize + 0) : Nat) + (v.lba : Nat)) % 2^64).toNat := rfl
  rw [e, Nat.add_zero, wrap64_of_lt (by omega), Int.natCast_one, Int.mul_one]
  congr 2
  push_cast
  omega

theorem clusterSector_eq (v : Volume) {c : Nat} (h2 : 2 ≤ c) (hc : c < 2^28) :
    v.pbr.clusterSector c = v.clusterAt c := by
  have h := dataStart_lt v
  have hl := v.lba_lt
  have hb : Int.bmod ((c : Int) - 2) (2^32) = (c : Int) - 2 := Int.bmod_eq_of_le (by omega) (by omega)
  rw [clusterSector_pbr, hb]
  unfold Volume.clusterAt
  omega

/-- two clusters whose numbers differ are in different sectors -/
theorem clusterSector_inj (v : Volume) {c c' : Nat} (hc : c < 2^32) (hc' : c' < 2^32)
    (h : v.pbr.clusterSector c = v.pbr.clusterSector c') : c = c' := by
  have hs := dataStart_lt v
  have hl := v.lba_lt
  rw [clusterSector_pbr, clusterSector_pbr] at h
  generalize v.lba + v.reserved + v.numFAT * v.fatSize = d at h
  rw [Int.bmod_def, Int.bmod_def] at h
  split at h <;> split at h <;> omega

/-- `next_cluster` reads the sector of the FAT entry modulo `2^32` -/
theorem fatSector_eq (v : Volume) (c : Nat) : v.pbr.fatSector c = v.fatAt c % 2^32 := by
  show wrap32 (v.reserved + c / 128 + v.lba) = _
  unfold wrap32 Volume.fatAt
  congr 1
  omega

/-! ## the chain that `next_cluster` follows -/

/-- the entry that `next_cluster` returns when its read succeeds -/
def nextOf (m : Medium) (pbr : Pbr) (c : Nat) : Nat :=
  read32 (m.sector (pbr.fatSector c)) (4 * (c % 128))

theorem nextCluster_eq (h : ∀ k, m.fails k = false) (locals : Locals) (k c : Nat) (pbr : Pbr) :
    nextCluster m locals k c pbr = nextOf m pbr c :=
  read32_readInto h k _ _ _ (by omega)

theorem nextOf_eq (h : v.On m) {c : Nat} (hc : v.IsData c) (hlt : v.fatAt c < 2^32) :
    nextOf m v.pbr c = v.fat c := by
  unfold nextOf
  rw [fatSector_eq, Nat.mod_eq_of_lt hlt, h.fat c hc.2.2]

/-- `n` entries are followed rightly if their sector numbers are 32-bit -/
theorem follow_eq (h : v.On m) {c : Nat} (n : Nat)
    (hd : ∀ i, i < n → v.IsData (v.chain c i) ∧ v.fatAt (v.chain c i) < 2^32) :
    (nextOf m v.pbr)^[n] c = v.chain c n := by
  induction n with
  | zero => rfl
  | succ n ih =>
    have hn := hd n (by omega)
    rw [Function.iterate_succ_apply', ih fun i hi => hd i (by omega), nextOf_eq h hn.1 hn.2]
    unfold Volume.chain
    rw [Function.iterate_succ_apply']

/-! ## the loop of `fat32_read` -/

theorem copyBytes_apply (tmp : Mem) (dest : Buf) (off n x : Nat) :
    copyBytes tmp dest off n x = if off ≤ x ∧ x < off + n then some (tmp (x - off)) else dest x := by
  induction n with
  | zero =>
    rw [if_neg (by omega)]
    rfl
  | succ n ih =>
    show (if x = off + n then some (tmp n) else copyBytes tmp dest off n x) = _
    by_cases h : x = off + n
    · have e : x - off = n := by omega
      rw [if_pos h, if_pos (by omega), e]
    · rw [if_neg h, ih]
      have e : (off ≤ x ∧ x < off + n) ↔ (off ≤ x ∧ x < off + (n + 1)) := by omega
      simp only [e]

/-- the bytes of the clusters that `next_cluster` leads to from `c`, stored from `off` on -/
def stored (m : Medium) (pbr : Pbr) (c bytes : Nat) (dest : Buf) (off : Nat) : Buf := fun x =>
  if off ≤ x ∧ x < off + bytes then
    some (m.sector (pbr.clusterSector ((nextOf m pbr)^[(x - off) / 512] c)) ((x - off) % 512))
  else dest x

theorem stored_tail (h : ∀ k, m.fails k = false) (pbr : Pbr) (k c bytes off : Nat) (dest : Buf)
    (buffer : Mem) (hb : bytes < 512) :
    copyBytes (readCluster m k c pbr buffer) dest off bytes = stored m pbr c bytes dest off := by
  funext x
  rw [copyBytes_apply]
  unfold stored
  by_cases hx : off ≤ x ∧ x < off + bytes
  · have e0 : (x - off) / 512 = 0 := by omega
    have e1 : (x - off) % 512 = x - off := by omega
    rw [if_pos hx, if_pos hx, e0, e1]
    unfold readCluster
    rw [readInto_apply h _ _ _ _ (by omega)]
    rfl
  · rw [if_neg hx, if_neg hx]

/-- a whole sector, and the rest of the file behind it -/
theorem stored_sector (h : ∀ k, m.fails k = false) (pbr : Pbr) (k c bytes off : Nat) (dest : Buf)
    (hb : 512 ≤ bytes) :
    stored m pbr (nextOf m pbr c) (bytes - 512) (readClusterTo m k c pbr dest off) (off + 512)
      = stored m pbr c bytes dest off := by
  funext x
  unfold stored readClusterTo Medium.readTo
  rw [h k, if_neg Bool.false_ne_true]
  by_cases h1 : off + 512 ≤ x ∧ x < off + 512 + (bytes - 512)
  · have e0 : (x - off) / 512 = (x - (off + 512)) / 512 + 1 := by omega
    have e1 : (x - off) % 512 = (x - (off + 512)) % 512 := by omega
    rw [if_pos h1, if_pos (by omega), e0, e1, Function.iterate_succ_apply]
  · rw [if_neg h1]
    by_cases h2 : off ≤ x ∧ x < off + 512
    · have e0 : (x - off) / 512 = 0 := by omega
      have e1 : (x - off) % 512 = x - off := by omega
      rw [if_pos h2, if_pos (by omega), e0, e1]
      rfl
    · rw [if_neg h2, if_neg (by omega)]

section Loop
variable {pbr : Pbr} (hr : ∀ k, m.fails k = false) (hp : pbr.bytesPerSector = 512) (locals : Locals)
include hr hp

/-- one round -/
theorem readLoop_succ (fuel k c bytes : Nat) (dest : Buf) (off : Nat) :
    readLoop m locals pbr (fuel + 1) k c bytes dest off
      = if bytes < 512 then
          some (.ok (stored m pbr c bytes dest off, if bytes = 0 then k else k + 1))
        else readLoop m locals pbr fuel (k + 2) (nextOf m pbr c) (bytes - 512)
          (readClusterTo m k c pbr dest off) (off + 512) := by
  rw [readLoop]
  by_cases h0 : bytes = 0
  · have e : stored m pbr c 0 dest off = dest := by
      funext x
      unfold stored
      rw [if_neg (by omega)]
    rw [if_pos h0, h0, if_pos (by omega), e, if_pos rfl]
  · rw [if_neg h0, hp]
    by_cases hb : bytes < 512
    · rw [if_pos hb, if_neg (by omega), if_pos hb, if_neg h0]
      simp only [stored_tail hr pbr k c bytes off dest _ hb]
    · rw [if_neg hb, if_neg hb]
      simp only [nextCluster_eq hr]

theorem readLoop_total {fuel k c bytes : Nat} {dest : Buf} {off : Nat} (hf : bytes / 512 < fuel) :
    ∃ k', readLoop m locals pbr fuel k c bytes dest off
      = some (.ok (stored m pbr c bytes dest off, k')) := by
  induction fuel generalizing k c bytes dest off with
  | zero => omega
  | succ fuel ih =>
    rw [readLoop_succ hr hp]
    by_cases hb : bytes < 512
    · rw [if_pos hb]
      exact ⟨_, rfl⟩
    · rw [if_neg hb, ← stored_sector hr pbr k c bytes off dest (by omega)]
      apply ih
      omega

theorem readLoop_apply {fuel k c bytes : Nat} {dest dest' : Buf} {off k' : Nat}
    (h : readLoop m locals pbr fuel k c bytes dest off = some (.ok (dest', k'))) :
    dest' = stored m pbr c bytes dest off := by
  induction fuel generalizing k c bytes dest off with
  | zero => cases h
  | succ fuel ih =>
    rw [readLoop_succ hr hp] at h
    by_cases hb : bytes < 512
    · rw [if_pos hb] at h
      cases h
      rfl
    · rw [if_neg hb] at h
      rw [ih h, stored_sector hr pbr k c bytes off dest (by omega)]

end Loop

end StarOS
