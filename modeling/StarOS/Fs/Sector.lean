import StarOS.Fs.Fat32

/-!
# The sector of a cluster (`read_cluster`)

`c` is the cluster number the disk holds, `read_cluster` gets it as an `int`.

* `Pbr.exactSector`    the sector of a data cluster, in exact arithmetic;
* `Pbr.ints`, `Pbr.words`   the exact values of the `int` and the `uint64_t` subexpressions;
* `Pbr.Exact`          the sector is right, and no subexpression leaves its type;
* `exact_iff`          exactly while the product of cluster and sectors per cluster is below `2^31`.
-/

namespace StarOS
open Lib

namespace Pbr

def fatSize (pbr : Pbr) : Nat :=
  if pbr.sectorsPerFAT16 = 0 then pbr.sectorsPerFAT32 else pbr.sectorsPerFAT16

/-- the sectors of the partition before its data -/
def firstDataSector (pbr : Pbr) : Nat := pbr.numReservedSectors + pbr.numFAT * pbr.fatSize

def exactSector (pbr : Pbr) (c : Nat) : Nat :=
  pbr.hiddenSectors + pbr.numReservedSectors + pbr.numFAT * pbr.fatSize + (c - 2) * pbr.sectorsPerCluster

/-- `c` is a data cluster of a partition of `total` sectors -/
structure DataCluster (pbr : Pbr) (total c : Nat) : Prop where
  two_le : 2 ≤ c
  inside : pbr.firstDataSector + (c - 2) * pbr.sectorsPerCluster + pbr.sectorsPerCluster ≤ total

/-- the argument, `directory_cluster_num - 2`, and the product with `sectors_per_cluster` -/
def ints (pbr : Pbr) (c : Nat) : List Int := [c, (c : Int) - 2, ((c : Int) - 2) * pbr.sectorsPerCluster]

/-- `num_FAT * fat_size`, `first_data_sector`, `first_sector_of_given_cluster` and
`absolute_sector_num` -/
def words (pbr : Pbr) (c : Nat) : List Int :=
  let firstSector := ((c : Int) - 2) * pbr.sectorsPerCluster + pbr.firstDataSector
  [(pbr.numFAT : Int) * pbr.fatSize, pbr.firstDataSector, firstSector, firstSector + pbr.hiddenSectors]

structure Exact (pbr : Pbr) (c : Nat) : Prop where
  sector_eq : pbr.clusterSector c = pbr.exactSector c
  ints_fit : ∀ x ∈ pbr.ints c, -2^31 ≤ x ∧ x < 2^31
  words_fit : ∀ x ∈ pbr.words c, 0 ≤ x ∧ x < 2^64

/-- the fields have the widths of the boot record -/
theorem ofBuffer_lt (buffer : Mem) : (ofBuffer buffer).numReservedSectors < 2^16 ∧
    (ofBuffer buffer).numFAT < 2^8 ∧ (ofBuffer buffer).fatSize < 2^32 ∧ (ofBuffer buffer).hiddenSectors < 2^32 := by
  have h16 : ∀ a, read16 buffer a < 2^16 := by
    intro a
    have h0 := (buffer a).toNat_lt
    have h1 := (buffer (a + 1)).toNat_lt
    unfold read16
    omega
  refine ⟨h16 14, (buffer 16).toNat_lt, ?_, read32_lt buffer 28⟩
  unfold fatSize
  split
  · exact read32_lt buffer 36
  · exact Nat.lt_trans (h16 22) (by decide)

/-- the FATs take less than `2^40` sectors -/
theorem fats_lt {pbr : Pbr} (hn : pbr.numFAT < 2^8) (hf : pbr.fatSize < 2^32) :
    pbr.numFAT * pbr.fatSize < 2^40 := by
  have h : pbr.numFAT * pbr.fatSize ≤ 255 * pbr.fatSize := Nat.mul_le_mul_right _ (by omega)
  omega

theorem bmod_of_lt {n : Nat} (h : n < 2^31) : Int.bmod n (2^32) = n := by
  refine Int.bmod_eq_of_le ?_ ?_
  · omega
  · omega

theorem offset_eq {c spc : Nat} (h2 : 2 ≤ c) : ((c : Int) - 2) * spc = ((c - 2) * spc : Nat) := by
  rw [Nat.cast_mul, Nat.cast_sub h2]
  rfl

/-- the sector `read_cluster` reads, with the product as an `int` -/
theorem clusterSector_eq {pbr : Pbr} {c : Nat} (h2 : 2 ≤ c) (hfirst : pbr.firstDataSector < 2^64) :
    pbr.clusterSector c = ((Int.bmod ((c - 2) * pbr.sectorsPerCluster : Nat) (2^32) + pbr.firstDataSector
      + pbr.hiddenSectors) % 2^64).toNat := by
  have hw : wrap64 (pbr.numReservedSectors + pbr.numFAT * pbr.fatSize + 0) = pbr.firstDataSector :=
    wrap64_of_lt hfirst
  show ((Int.bmod (((c : Int) - 2) * pbr.sectorsPerCluster) (2^32)
    + (wrap64 (pbr.numReservedSectors + pbr.numFAT * pbr.fatSize + 0) : Nat) + pbr.hiddenSectors) % 2^64).toNat = _
  rw [offset_eq h2, hw]

end Pbr

/-- **On a partition of fewer than `2^32` sectors the sector of a data cluster is computed exactly, with
no overflow on the way, if and only if the cluster number and the product of `c - 2` and
`sectors_per_cluster` are below `2^31`.** -/
theorem exact_iff (buffer : Mem) (total c : Nat) (htotal : total < 2^32)
    (hspc : 1 ≤ (Pbr.ofBuffer buffer).sectorsPerCluster ∧ (Pbr.ofBuffer buffer).sectorsPerCluster ≤ 128)
    (hc : (Pbr.ofBuffer buffer).DataCluster total c) :
    (Pbr.ofBuffer buffer).Exact c ↔ c < 2^31 ∧ (c - 2) * (Pbr.ofBuffer buffer).sectorsPerCluster < 2^31 := by
  obtain ⟨hres, hnum, hsize, hhid⟩ := Pbr.ofBuffer_lt buffer
  have hfats := Pbr.fats_lt hnum hsize
  obtain ⟨h2, hin⟩ := hc
  have hfirst : (Pbr.ofBuffer buffer).firstDataSector < 2^64 := by omega
  have hsector := Pbr.clusterSector_eq h2 hfirst
  have hoffset : ((c : Int) - 2) * (Pbr.ofBuffer buffer).sectorsPerCluster
      = ((c - 2) * (Pbr.ofBuffer buffer).sectorsPerCluster : Nat) := Pbr.offset_eq h2
  constructor
  · intro h
    have hc := h.ints_fit c List.mem_cons_self
    have hp := h.ints_fit _ (List.mem_cons_of_mem _ (List.mem_cons_of_mem _ List.mem_cons_self))
    rw [hoffset] at hp
    omega
  · rintro ⟨hc31, hp31⟩
    refine ⟨?_, fun x hx => ?_, fun x hx => ?_⟩
    · rw [hsector, Pbr.bmod_of_lt hp31, Pbr.exactSector]
      unfold Pbr.firstDataSector at hin ⊢
      omega
    · simp only [Pbr.ints, hoffset, List.mem_cons, List.not_mem_nil, or_false] at hx
      omega
    · simp only [Pbr.words, hoffset, List.mem_cons, List.not_mem_nil, or_false] at hx
      rw [← Nat.cast_mul] at hx
      omega

/-- the boot record of a partition of one terabyte: 128 sectors per cluster, 32 reserved sectors, two
FATs of 131074 sectors, behind 2048 hidden sectors -/
def terabyte : Mem :=
  write32 (writeByte (writeByte (writeByte (writeByte (fun _ => 0) 13 128) 14 32) 16 2) 29 8) 36 131074

/-- cluster `2^24 + 1` of that partition begins `128 * (2^24 - 1)` sectors behind cluster 2 -/
theorem exact_late : (Pbr.ofBuffer terabyte).Exact (2^24 + 1) :=
  (exact_iff terabyte (32 + 2 * 131074 + (2^24 + 1) * 128) (2^24 + 1) (by decide) (by decide)
    ⟨by decide, by decide⟩).mpr ⟨by decide, by decide⟩

/-- cluster `2^24 + 2` of that partition -/
theorem far_cluster_not_exact : ¬ ∀ (buffer : Mem) (total c : Nat), total < 2^32 →
    (1 ≤ (Pbr.ofBuffer buffer).sectorsPerCluster ∧ (Pbr.ofBuffer buffer).sectorsPerCluster ≤ 128) →
    (Pbr.ofBuffer buffer).DataCluster total c → (Pbr.ofBuffer buffer).Exact c := by
  intro hall
  have h := hall terabyte (32 + 2 * 131074 + (2^24 + 1) * 128) (2^24 + 2) (by decide) (by decide)
    ⟨by decide, by decide⟩
  have hp := h.ints_fit _ (List.mem_cons_of_mem _ (List.mem_cons_of_mem _ List.mem_cons_self))
  exact absurd hp.2 (by decide)

end StarOS
