import Mathlib.Tactic.IntervalCases
import StarOS.Fs.Volume

/-!
# A disk for every volume

`image v c size ..` is a disk that holds the volume `v`, with one file `A` of `size` bytes in its root
directory, whose first cluster is `c`.  Three of its bytes are free: the sectors before the partition
are filled with `fill` (sector 0 apart from the start of the partition), and the cluster `n` begins
with `mark`.

* `image_on`         it holds the volume;
* `image_resolves`   the path `/A` leads to the file.

The file is found through a long name entry, so the root directory itself can begin with any byte
whose low half is `1`.
-/

namespace StarOS
open Lib

namespace Image

/-- a sector before the partition -/
def lowSector (v : Volume) (fill : UInt8) : Mem := write32 (fun _ => fill) (0x1be + 8) v.lba

def pbrSector (v : Volume) : Mem :=
  write32 (write32 (write32 (fun y =>
    if y = 12 then 2
    else if y = 13 then 1
    else if y = 14 then UInt8.ofNat v.reserved
    else if y = 15 then UInt8.ofNat (v.reserved / 256)
    else if y = 16 then UInt8.ofNat v.numFAT
    else 0) 28 v.lba) 36 v.fatSize) 44 2

/-- sector `j` of the FAT -/
def fatSector (v : Volume) (j : Nat) : Mem := fun y => byteOf (v.fat (128 * j + y / 4)) (y % 4)

/-- a long name entry and the entry of the file -/
def rootSector (c size : Nat) : Mem :=
  write32 (fun y =>
    if y = 0 then 0x41
    else if y = 1 then 0x41
    else if y = 11 then 0x0f
    else if y = 52 then byteOf c 2
    else if y = 53 then byteOf c 3
    else if y = 58 then byteOf c 0
    else if y = 59 then byteOf c 1
    else 0) 60 size

/-- `/A` -/
def path : Mem := fun i => if i = 0 then 0x2f else if i = 1 then 0x41 else 0

def locals : Locals := ⟨fun _ _ => 0, fun _ _ => 0, fun _ _ => 0⟩

end Image

def image (v : Volume) (c size : Nat) (fill mark : UInt8) (n : Nat) : Medium where
  sector x :=
    if x < v.lba then Image.lowSector v fill
    else if x = v.lba then Image.pbrSector v
    else if v.lba + v.reserved ≤ x ∧ x < v.lba + v.reserved + v.fatSize then
      Image.fatSector v (x - (v.lba + v.reserved))
    else fun y =>
      if x = v.clusterAt n ∧ y = 0 then mark
      else if x = v.clusterAt 2 then Image.rootSector c size y
      else 0
  fails _ := false

variable (v : Volume) (c size : Nat) (fill mark : UInt8) (n : Nat)

/-! ## its sectors -/

theorem image_low {x : Nat} (h : x < v.lba) :
    (image v c size fill mark n).sector x = Image.lowSector v fill := if_pos h

theorem image_lba : (image v c size fill mark n).sector v.lba = Image.pbrSector v := by
  unfold image
  simp only [Nat.lt_irrefl, if_true, if_false]

theorem image_fat {x : Nat} (h : x < 128 * v.fatSize) :
    (image v c size fill mark n).sector (v.fatAt x) = Image.fatSector v (x / 128) := by
  have hr := v.reserved_pos
  have h1 : ¬ v.fatAt x < v.lba := by unfold Volume.fatAt; omega
  have h2 : ¬ v.fatAt x = v.lba := by unfold Volume.fatAt; omega
  have h3 : v.lba + v.reserved ≤ v.fatAt x ∧ v.fatAt x < v.lba + v.reserved + v.fatSize := by
    unfold Volume.fatAt; omega
  have e : v.fatAt x - (v.lba + v.reserved) = x / 128 := by unfold Volume.fatAt; omega
  unfold image
  simp only [h1, h2, h3, if_true, if_false, and_self, e]

/-- the data area starts behind the FAT -/
theorem clusterAt_ge (a : Nat) : v.lba + v.reserved + v.fatSize ≤ v.clusterAt a := by
  have h : 1 * v.fatSize ≤ v.numFAT * v.fatSize := Nat.mul_le_mul_right _ v.numFAT_pos
  unfold Volume.clusterAt
  omega

theorem image_data (a y : Nat) :
    (image v c size fill mark n).sector (v.clusterAt a) y
      = if v.clusterAt a = v.clusterAt n ∧ y = 0 then mark
        else if v.clusterAt a = v.clusterAt 2 then Image.rootSector c size y else 0 := by
  have h := clusterAt_ge v a
  have hr := v.reserved_pos
  have h1 : ¬ v.clusterAt a < v.lba := by omega
  have h2 : ¬ v.clusterAt a = v.lba := by omega
  have h3 : ¬ (v.lba + v.reserved ≤ v.clusterAt a ∧ v.clusterAt a < v.lba + v.reserved + v.fatSize) := by
    omega
  unfold image
  simp only [h1, h2, h3, if_false]

theorem image_mark : (image v c size fill mark n).sector (v.clusterAt n) 0 = mark := by
  rw [image_data, if_pos ⟨rfl, rfl⟩]

/-- no other sector depends on the mark -/
theorem image_congr (mark' : UInt8) {x : Nat} (h : x ≠ v.clusterAt n) (y : Nat) :
    (image v c size fill mark n).sector x y = (image v c size fill mark' n).sector x y := by
  unfold image
  simp only [h, false_and, if_false]

/-! ## it holds the volume -/

theorem pbrSector_pbr : Pbr.ofBuffer (Image.pbrSector v) = v.pbr := by
  have h1 := v.reserved_lt
  have h2 := v.numFAT_lt
  have hb : read16 (Image.pbrSector v) 11 = 512 := rfl
  have hc : (Image.pbrSector v 13).toNat = 1 := rfl
  have hr : read16 (Image.pbrSector v) 14 = v.reserved := by
    show (UInt8.ofNat v.reserved).toNat + 256 * (UInt8.ofNat (v.reserved / 256)).toNat = _
    rw [UInt8.toNat_ofNat', UInt8.toNat_ofNat']
    omega
  have hn : (Image.pbrSector v 16).toNat = v.numFAT := by
    show (UInt8.ofNat v.numFAT).toNat = _
    rw [UInt8.toNat_ofNat']
    omega
  have h16 : read16 (Image.pbrSector v) 22 = 0 := rfl
  have hl : read32 (Image.pbrSector v) 28 = v.lba := by
    unfold Image.pbrSector
    rw [read32_write32_apart (by omega), read32_write32_apart (by omega), read32_write32 v.lba_lt]
  have hf : read32 (Image.pbrSector v) 36 = v.fatSize := by
    unfold Image.pbrSector
    rw [read32_write32_apart (by omega), read32_write32 v.fatSize_lt]
  unfold Pbr.ofBuffer
  rw [hb, hc, hr, hn, h16, hl, hf]
  rfl

theorem read32_fatSector (x : Nat) : read32 (Image.fatSector v (x / 128)) (4 * (x % 128)) = v.fat x := by
  apply read32_of_bytes (Nat.lt_trans (v.fat_lt x) (by omega))
  intro i hi
  have e1 : 128 * (x / 128) + (4 * (x % 128) + i) / 4 = x := by omega
  have e2 : (4 * (x % 128) + i) % 4 = i := by omega
  unfold Image.fatSector
  rw [e1, e2]

theorem image_on : v.On (image v c size fill mark n) where
  reads _ := rfl
  partition := by
    rw [image_low v c size fill mark n v.lba_pos]
    exact read32_write32 v.lba_lt
  pbr := by rw [image_lba, pbrSector_pbr]
  rootDirectory := by
    rw [image_lba]
    exact read32_write32 (by omega)
  fat x hx := by rw [image_fat v c size fill mark n hx, read32_fatSector]

/-! ## the path `/A` leads to the file -/

theorem splitPart_apply {filename : Mem} (h : ∀ i, filename i ≠ 0x2f) (n i : Nat) (part : Mem) (x : Nat) :
    (splitPart filename n i part).1 x = if i ≤ x ∧ x < i + n then filename x else part x := by
  induction n generalizing i part with
  | zero =>
    rw [if_neg (by omega)]
    rfl
  | succ n ih =>
    rw [splitPart, if_neg (h i), ih]
    unfold writeByte
    by_cases hx : x = i
    · rw [if_neg (by omega), if_pos hx, if_pos (by omega), hx]
    · have e : (i + 1 ≤ x ∧ x < i + 1 + n) ↔ (i ≤ x ∧ x < i + (n + 1)) := by omega
      simp only [hx, if_false, e]

theorem copyChars_full (lfn : Mem) (n i offset : Nat) (name : Mem)
    (h : ∀ j, i ≤ j → j < i + n → lfnChar lfn j ≠ 0xffff) (ho : offset + n ≤ maxFilenameSize + 1) :
    ∃ name', copyChars lfn n i offset name = .ok name' ∧ ∀ x, name' x
      = if offset ≤ x ∧ x < offset + n then UInt8.ofNat (lfnChar lfn (i + (x - offset))) else name x := by
  induction n generalizing i offset name with
  | zero =>
    refine ⟨name, rfl, fun x => ?_⟩
    rw [if_neg (by omega)]
  | succ n ih =>
    obtain ⟨name', h1, h2⟩ := ih (i + 1) (offset + 1)
      (writeByte name offset (UInt8.ofNat (lfnChar lfn i))) (fun j hj hj' => h j (by omega) (by omega))
      (by omega)
    refine ⟨name', ?_, fun x => ?_⟩
    · rw [copyChars, if_pos (h i (by omega) (by omega)), if_pos (by omega), Int.toNat_natCast]
      exact h1
    · rw [h2 x]
      unfold writeByte
      by_cases hx : x = offset
      · have e : i + (x - offset) = i := by omega
        rw [if_neg (by omega), if_pos hx, if_pos (by omega), e]
      · by_cases hx' : offset ≤ x ∧ x < offset + (n + 1)
        · have e : i + 1 + (x - (offset + 1)) = i + (x - offset) := by omega
          rw [if_pos (by omega), if_pos hx', e]
        · rw [if_neg (by omega), if_neg hx, if_neg hx']

theorem lfnChar_congr {lfn lfn' : Mem} (h : ∀ y, 0 < y → y < 32 → lfn y = lfn' y) {i : Nat} (hi : i < 13) :
    lfnChar lfn i = lfnChar lfn' i := by
  have h16 : ∀ a, 0 < a → a + 1 < 32 → read16 lfn a = read16 lfn' a := by
    intro a ha ha'
    unfold read16
    rw [h a ha (by omega), h (a + 1) (by omega) ha']
  unfold lfnChar
  by_cases h5 : i < 5
  · rw [if_pos h5, if_pos h5, h16 _ (by omega) (by omega)]
  · rw [if_neg h5, if_neg h5]
    by_cases h11 : i < 11
    · rw [if_pos h11, if_pos h11, h16 _ (by omega) (by omega)]
    · rw [if_neg h11, if_neg h11, h16 _ (by omega) (by omega)]

theorem lfnChar_root (c size : Nat) {i : Nat} (hi : i < 13) :
    lfnChar (Image.rootSector c size) i = if i = 0 then 0x41 else 0 := by
  interval_cases i <;> rfl

theorem strcmp_one (k : Nat) {lhs rhs : Mem} (h0 : lhs 0 ≠ 0) (h : lhs 0 = rhs 0) (hl : lhs 1 = 0)
    (hr : rhs 1 = 0) : strcmp (k + 2) lhs rhs = some 0 := by
  have hl' : advance lhs 1 0 = 0 := hl
  have hr' : advance rhs 1 0 = 0 := hr
  rw [strcmp, if_pos ⟨h0, h ▸ h0⟩, if_pos h, strcmp, if_neg (fun hn => hn.1 hl'), if_pos ⟨hl', hr'⟩]

/-- a table that begins with the two entries of `rootSector`, apart from the upper half of the order -/
structure IsRoot (c size : Nat) (table : Mem) : Prop where
  order : table 0 &&& 0xf = 1
  rest : ∀ y, 0 < y → y < 512 → table y = Image.rootSector c size y

theorem scanTable_root {c size : Nat} (hc : c < 2^32) (hs : size < 2^32) {part table : Mem}
    (ht : IsRoot c size table) (hp0 : part 0 = 0x41) (hp1 : part 1 = 0) (name : Mem) :
    ∃ name', scanTable part table (512 / 32) 0 name = .ok (.file ⟨name', c, size⟩) := by
  -- entry 0: the long name
  have hlfn : ∀ i, i < 13 → lfnChar (advance table (32 * 0)) i = if i = 0 then 0x41 else 0 := by
    intro i hi
    rw [← lfnChar_root c size hi]
    refine lfnChar_congr (fun y hy hy' => ?_) hi
    unfold advance
    rw [Nat.mul_zero, Nat.zero_add, ht.rest y hy (by omega)]
  obtain ⟨name', hcopy, hname⟩ := copyChars_full (advance table (32 * 0)) 13 0 0 name
    (fun j _ hj => by rw [hlfn j (by omega)]; split <;> decide) (by decide)
  have hattr : advance table (32 * 0) 11 = 0x0f := ht.rest 11 (by omega) (by omega)
  have horder : (((advance table (32 * 0) 0 &&& 0xf).toNat : Int) - 1) * 13 = ((0 : Nat) : Int) := by
    have e : advance table (32 * 0) 0 &&& 0xf = 1 := ht.order
    rw [e]
    rfl
  have hn0 : name' 0 = 0x41 := by
    rw [hname 0, if_pos (by omega), hlfn 0 (by omega)]
    rfl
  have hn1 : name' 1 = 0 := by
    rw [hname 1, if_pos (by omega), hlfn 1 (by omega)]
    rfl
  -- entry 1: the file
  have hbyte : ∀ y, y < 32 → advance table (32 * (0 + 1)) y = Image.rootSector c size (32 + y) := by
    intro y hy
    exact ht.rest (32 + y) (by omega) (by omega)
  have hattr' : advance table (32 * (0 + 1)) 11 = 0 := hbyte 11 (by omega)
  have hcluster : read16 (advance table (32 * (0 + 1))) 20 * 2^16
      + read16 (advance table (32 * (0 + 1))) 26 = c := by
    unfold read16
    rw [hbyte 20 (by omega), hbyte (20 + 1) (by omega), hbyte 26 (by omega), hbyte (26 + 1) (by omega)]
    show ((byteOf c 2).toNat + 256 * (byteOf c 3).toNat) * 2^16
      + ((byteOf c 0).toNat + 256 * (byteOf c 1).toNat) = c
    simp only [byteOf, UInt8.toNat_ofNat']
    omega
  have hsize : read32 (advance table (32 * (0 + 1))) 28 = size := by
    have e : read32 (advance table (32 * (0 + 1))) 28 = read32 (Image.rootSector c size) 60 := by
      unfold read32
      rw [hbyte 28 (by omega), hbyte (28 + 1) (by omega), hbyte (28 + 2) (by omega),
        hbyte (28 + 3) (by omega)]
    rw [e]
    exact read32_write32 hs
  have hcmp : strcmp (maxFilenameSize + 1) part name' = some 0 :=
    strcmp_one 255 (by rw [hp0]; decide) (by rw [hp0, hn0]) hp1 hn1
  refine ⟨name', ?_⟩
  show scanTable part table (14 + 1 + 1) 0 name = _
  rw [scanTable]
  simp only [hattr, if_true, horder, hcopy]
  rw [scanTable]
  simp only [hattr', hcluster, hsize, hcmp]
  rfl

theorem image_resolves (hc : c < 2^32) (hs : size < 2^32) (hm : mark &&& 0xf = 1) (fuel : Nat) :
    ∃ name, getDirEntry (image v c size fill mark n) Image.locals (fuel + 1) 0 Image.path
      = some (.ok (⟨name, c, size⟩, 3)) := by
  have hon := image_on v c size fill mark n
  have hpath : removeMountPoint Image.path [0x2f] = advance Image.path 1 := rfl
  have hslash : ∀ i, advance Image.path 1 i ≠ 0x2f := by
    intro i
    unfold advance Image.path
    rw [if_neg (by omega)]
    split <;> decide
  have hpart : ∀ x, x < 256 → (splitPart (advance Image.path 1) maxFilenameSize 0
      (Image.locals.currentPartFilename 2)).1 x = advance Image.path 1 x := by
    intro x hx
    rw [splitPart_apply hslash, if_pos ⟨Nat.zero_le x, by simpa [maxFilenameSize] using hx⟩]
  have ht : IsRoot c size (readCluster (image v c size fill mark n) 2 2 v.pbr (Image.locals.buffer 2)) := by
    unfold readCluster
    rw [clusterSector_eq v (Nat.le_refl 2) (by omega)]
    constructor
    · rw [readInto_apply hon.reads _ _ _ _ (by omega), image_data]
      by_cases h : v.clusterAt 2 = v.clusterAt n
      · rw [if_pos ⟨h, rfl⟩, hm]
      · have e : Image.rootSector c size 0 = 0x41 := rfl
        rw [if_neg (fun hn => h hn.1), if_pos rfl, e]
        decide
    · intro y hy hy'
      rw [readInto_apply hon.reads _ _ _ _ hy', image_data, if_neg (by omega), if_pos rfl]
  obtain ⟨name, hscan⟩ := scanTable_root hc hs ht (hpart 0 (by omega)) (hpart 1 (by omega))
    (Image.locals.name 2)
  refine ⟨name, ?_⟩
  rw [getDirEntry_eq hon, hpath, locateFileDirent]
  simp only [Nat.zero_add, hscan]

end StarOS
