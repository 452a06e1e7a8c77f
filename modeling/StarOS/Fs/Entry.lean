import StarOS.Fs.Sector

/-!
# The FAT entry of a cluster (`next_cluster`)

The first FAT begins at sector `num_reserved_sectors` of the partition; the top four bits of its 32-bit entries
are reserved.

* `HoldsFat`           a disk with the first FAT on it, whatever is in its other sectors;
* `nextCluster_fat`    `next_cluster` returns the whole entry, if its sector number has 32 bits;
* `next_cluster_iff`   **it returns the low 28 bits exactly if the read succeeds, the sector number has 32 bits
                       and the reserved bits are zero.**
-/

namespace StarOS
open Lib

namespace Pbr

/-- the sector of the FAT entry of `c`, in exact arithmetic -/
def entrySector (pbr : Pbr) (c : Nat) : Nat := pbr.hiddenSectors + pbr.numReservedSectors + c / 128

/-- the bytes of the first FAT are `fat` -/
def HoldsFat (pbr : Pbr) (sector : Nat → Nat → UInt8) (fat : Mem) : Prop :=
  ∀ i, i < 512 * pbr.fatSize → sector (pbr.hiddenSectors + pbr.numReservedSectors + i / 512) (i % 512) = fat i

/-- the next cluster, by the entry of `c` -/
def entryOf (fat : Mem) (c : Nat) : Nat := read32 fat (4 * c) % 2^28

/-- the four bytes of an entry are in one sector -/
theorem read32_entry {pbr : Pbr} {sector : Nat → Nat → UInt8} {fat : Mem} (h : pbr.HoldsFat sector fat) {c : Nat}
    (hc : c < 128 * pbr.fatSize) : read32 (sector (pbr.entrySector c)) (4 * (c % 128)) = read32 fat (4 * c) := by
  have hbyte : ∀ j < 4, sector (pbr.entrySector c) (4 * (c % 128) + j) = fat (4 * c + j) := by
    intro j hj
    have hi := h (4 * c + j) (by omega)
    have e0 : (4 * c + j) / 512 = c / 128 := by omega
    have e1 : (4 * c + j) % 512 = 4 * (c % 128) + j := by omega
    rw [e0, e1] at hi
    exact hi
  have h0 := hbyte 0 (by omega)
  have h1 := hbyte 1 (by omega)
  have h2 := hbyte 2 (by omega)
  have h3 := hbyte 3 (by omega)
  rw [Nat.add_zero, Nat.add_zero] at h0
  rw [read32, read32, h0, h1, h2, h3]

end Pbr

section
variable {pbr : Pbr} {sector : Nat → Nat → UInt8} {fails : Nat → Bool} {fat : Mem} {locals : Locals} {k c : Nat}

theorem nextCluster_read (hk : fails k = false) :
    nextCluster ⟨sector, fails⟩ locals k c pbr = read32 (sector (pbr.entrySector c % 2^32)) (4 * (c % 128)) := by
  have e : pbr.fatSector c = pbr.entrySector c % 2^32 := by
    show (pbr.numReservedSectors + c / 128 + pbr.hiddenSectors) % 2^32 = _
    unfold Pbr.entrySector
    congr 1
    omega
  show read32 (Medium.readInto _ _ _ _) _ = _
  rw [e]
  refine read32_congr fun x _ hx => ?_
  show (if fails k = true then _ else fun x => _) x = _
  rw [hk, if_neg Bool.false_ne_true, if_pos (by omega)]

theorem nextCluster_fat (h : pbr.HoldsFat sector fat) (hc : c < 128 * pbr.fatSize) (hk : fails k = false)
    (hs : pbr.entrySector c < 2^32) : nextCluster ⟨sector, fails⟩ locals k c pbr = read32 fat (4 * c) := by
  rw [nextCluster_read hk, Nat.mod_eq_of_lt hs, pbr.read32_entry h hc]

/-- a failed read leaves the buffer on the stack as it was -/
theorem nextCluster_failed (hk : fails k = true) :
    nextCluster ⟨sector, fails⟩ locals k c pbr = read32 (locals.buffer k) (4 * (c % 128)) := by
  show read32 (if fails k = true then _ else _) _ = _
  rw [if_pos hk]

end

/-- a disk with the FAT from sector `first` on, and the byte `b` everywhere before it -/
def fatDisk (first : Nat) (fat : Mem) (b : UInt8) : Nat → Nat → UInt8 := fun n x =>
  if first ≤ n then fat (512 * (n - first) + x) else b

theorem holdsFat_fatDisk (pbr : Pbr) (fat : Mem) (b : UInt8) :
    pbr.HoldsFat (fatDisk (pbr.hiddenSectors + pbr.numReservedSectors) fat b) fat := by
  intro i _
  show (if _ then _ else _) = _
  rw [if_pos (Nat.le_add_right _ _)]
  congr 1
  omega

/-- two buffers that no FAT entry agrees with both -/
theorem read32_const_ne (a a' : Nat) : read32 (fun _ => 0) a ≠ read32 (fun _ => 1) a' := by
  show 0 + 256 * 0 + 65536 * 0 + 16777216 * 0 ≠ 1 + 256 * 1 + 65536 * 1 + 16777216 * 1
  decide

/-- **`next_cluster` returns the low 28 bits of the entry, on every disk that holds the FAT, if and only if its
read succeeds, the number of the sector has 32 bits, and the top four bits of the entry are zero.** -/
theorem next_cluster_iff (buffer fat : Mem) (fails : Nat → Bool) (k : Nat) (c : UInt32)
    (hc : c.toNat < 128 * (Pbr.ofBuffer buffer).fatSize) :
    (∀ sector locals, (Pbr.ofBuffer buffer).HoldsFat sector fat →
      nextCluster ⟨sector, fails⟩ locals k c.toNat (Pbr.ofBuffer buffer) = Pbr.entryOf fat c.toNat) ↔
    fails k = false ∧ (Pbr.ofBuffer buffer).entrySector c.toNat < 2^32 ∧ read32 fat (4 * c.toNat) < 2^28 := by
  obtain ⟨hres, -, -, hhid⟩ := Pbr.ofBuffer_lt buffer
  have hc32 := c.toNat_lt
  generalize Pbr.ofBuffer buffer = pbr at *
  generalize c.toNat = c at *
  have hholds := holdsFat_fatDisk pbr fat
  constructor
  · intro h
    have hk : fails k = false := by
      by_contra hk
      have hk := Bool.eq_true_of_not_eq_false hk
      have h0 := h _ ⟨fun _ _ => 0, fun _ _ => 0, fun _ _ => 0⟩ (hholds 0)
      have h1 := h _ ⟨fun _ _ => 0, fun _ _ => 0, fun _ _ => 1⟩ (hholds 0)
      rw [nextCluster_failed hk] at h0 h1
      exact read32_const_ne _ _ (h0.trans h1.symm)
    have hs : pbr.entrySector c < 2^32 := by
      by_contra hs
      -- the sector that is read is one before the FAT
      have hbefore : pbr.entrySector c % 2^32 < pbr.hiddenSectors + pbr.numReservedSectors := by
        unfold Pbr.entrySector at hs ⊢
        omega
      have hword : ∀ b, read32 (fun _ => b) (4 * (c % 128)) = Pbr.entryOf fat c := by
        intro b
        have hb := h _ ⟨fun _ _ => 0, fun _ _ => 0, fun _ _ => 0⟩ (hholds b)
        rw [nextCluster_read hk] at hb
        rw [← hb]
        refine read32_congr fun x _ _ => ?_
        exact (if_neg (Nat.not_le.mpr hbefore)).symm
      exact read32_const_ne _ _ ((hword 0).trans (hword 1).symm)
    have he := h _ ⟨fun _ _ => 0, fun _ _ => 0, fun _ _ => 0⟩ (hholds 0)
    rw [nextCluster_fat (hholds 0) hc hk hs] at he
    exact ⟨hk, hs, he ▸ Nat.mod_lt _ (by decide)⟩
  · rintro ⟨hk, hs, he⟩ sector locals hfat
    rw [nextCluster_fat hfat hc hk hs]
    exact (Nat.mod_eq_of_lt he).symm

/-- the FAT with one entry, that of cluster 2 -/
def oneEntryFat (w : Nat) : Mem := write32 (fun _ => 0) 8 w

/-- cluster 2 is followed by cluster 3 -/
theorem next_cluster_three : (2 : UInt32).toNat < 128 * (Pbr.ofBuffer terabyte).fatSize ∧
    ∀ sector locals, (Pbr.ofBuffer terabyte).HoldsFat sector (oneEntryFat 3) →
      nextCluster ⟨sector, fun _ => false⟩ locals 0 2 (Pbr.ofBuffer terabyte) = Pbr.entryOf (oneEntryFat 3) 2 := by
  have hc : (2 : UInt32).toNat < 128 * (Pbr.ofBuffer terabyte).fatSize := by decide
  refine ⟨hc, (next_cluster_iff terabyte (oneEntryFat 3) (fun _ => false) 0 2 hc).mpr ⟨rfl, by decide, ?_⟩⟩
  have e : read32 (oneEntryFat 3) (4 * 2) = 3 := read32_write32 (by decide)
  show read32 (oneEntryFat 3) (4 * 2) < 2^28
  rw [e]
  decide

/-- the same entry with a reserved bit set -/
theorem reserved_bits_followed : ¬ ∀ (buffer fat : Mem) (c : UInt32) (sector : Nat → Nat → UInt8) (locals : Locals),
    c.toNat < 128 * (Pbr.ofBuffer buffer).fatSize → (Pbr.ofBuffer buffer).HoldsFat sector fat →
    nextCluster ⟨sector, fun _ => false⟩ locals 0 c.toNat (Pbr.ofBuffer buffer) = Pbr.entryOf fat c.toNat := by
  intro hall
  have hc : (2 : UInt32).toNat < 128 * (Pbr.ofBuffer terabyte).fatSize := by decide
  have hfat := holdsFat_fatDisk (Pbr.ofBuffer terabyte) (oneEntryFat 0x10000003) 0
  have h := hall terabyte _ 2 _ ⟨fun _ _ => 0, fun _ _ => 0, fun _ _ => 0⟩ hc hfat
  rw [nextCluster_fat hfat hc rfl (by decide), Pbr.entryOf] at h
  have e : read32 (oneEntryFat 0x10000003) (4 * (2 : UInt32).toNat) = 0x10000003 := read32_write32 (by decide)
  rw [e] at h
  exact absurd h (by decide)

end StarOS
