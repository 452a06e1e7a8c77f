import Mathlib.Data.Nat.Find
import StarOS.Fs.Image

/-!
# Reading a file

`Delivers` says what `fs_read` and `stat` are for: the bytes of the file, in the order of its chain,
nothing beyond them, and its size.

* `fsRead_delivers`    a file is read rightly if every FAT entry that is followed is in a sector whose
                       number fits in 32 bits;
* `image_misled`       otherwise there is a disk with this volume on which it is not: `next_cluster`
                       adds the sector number up in a `uint32_t`, so the entry comes from a sector before
                       the partition;
* `files_delivered_iff`   both together.
-/

namespace StarOS
open Lib

/-- `get_dir_entry` resolves the path to an entry with this first cluster and this size -/
def Resolves (m : Medium) (locals : Locals) (path : Mem) (c size : Nat) : Prop :=
  ∃ fuel e k, getDirEntry m locals fuel 0 path = some (.ok (e, k)) ∧ e.firstClusterNumber = c ∧ e.size = size

/-- `fs_read` returns 0 and has stored the first `size` bytes of the chain from `c` and nothing else;
`stat` reports `size` -/
structure Delivers (v : Volume) (m : Medium) (locals locals' : Locals) (path : Mem) (c size : Nat) :
    Prop where
  fsRead : ∃ fuel dest k, fsRead m locals fuel 0 path (fun _ => none) = some (.ok (0, dest, k)) ∧
    (∀ i, i < size → dest i = some (v.fileByte m c i)) ∧ ∀ i, size ≤ i → dest i = none
  stat : ∃ fuel k, stat m locals' fuel 0 path = some (.ok (size, k))

variable {m : Medium} {v : Volume}

/-! ## more fuel does not change a result -/

theorem locateFileDirent_mono {locals : Locals} {pbr : Pbr} {fuel fuel' k c : Nat} {filename : Mem}
    {r : Except Fatal (DirEntry × Nat)} (h : locateFileDirent m locals pbr fuel k c filename = some r)
    (hf : fuel ≤ fuel') : locateFileDirent m locals pbr fuel' k c filename = some r := by
  induction fuel generalizing fuel' k c filename with
  | zero => cases h
  | succ fuel ih =>
    obtain ⟨fuel', rfl⟩ : ∃ f, fuel' = f + 1 := ⟨fuel' - 1, by omega⟩
    rw [locateFileDirent] at h ⊢
    cases hs : scanTable (splitPart filename maxFilenameSize 0 (locals.currentPartFilename k)).1
        (readCluster m k c pbr (locals.buffer k)) (512 / 32) 0 (locals.name k) with
    | error f =>
      simp only [hs] at h ⊢
      exact h
    | ok found =>
      cases found with
      | file e =>
        simp only [hs] at h ⊢
        exact h
      | directory c' =>
        simp only [hs] at h ⊢
        exact ih h (by omega)

theorem getDirEntry_mono (hv : v.On m) {locals : Locals} {fuel fuel' k : Nat} {path : Mem}
    {r : Except Fatal (DirEntry × Nat)} (h : getDirEntry m locals fuel k path = some r)
    (hf : fuel ≤ fuel') : getDirEntry m locals fuel' k path = some r := by
  rw [getDirEntry_eq hv] at h ⊢
  exact locateFileDirent_mono h hf

/-! ## what `fs_read` stores -/

theorem fsRead_eq (hv : v.On m) {locals : Locals} {fuel k k' : Nat} {path : Mem} {e : DirEntry} (dest : Buf)
    (h : getDirEntry m locals fuel k path = some (.ok (e, k'))) :
    fsRead m locals fuel k path dest
      = (readLoop m locals v.pbr fuel (k' + 2) e.firstClusterNumber e.size dest 0).map
          (Except.map fun r => (0, r)) := by
  show fat32Read m locals fuel k path dest = _
  unfold fat32Read
  rw [h]
  simp only [loadPbr_eq hv]
  cases readLoop m locals v.pbr fuel (k' + 2) e.firstClusterNumber e.size dest 0 with
  | none => rfl
  | some o =>
    cases o with
    | error f => rfl
    | ok r => rfl

theorem fsRead_total (hv : v.On m) {locals : Locals} {fuel k k' : Nat} {path : Mem} {e : DirEntry}
    (dest : Buf) (h : getDirEntry m locals fuel k path = some (.ok (e, k'))) (hf : e.size / 512 < fuel) :
    ∃ k'', fsRead m locals fuel k path dest
      = some (.ok (0, stored m v.pbr e.firstClusterNumber e.size dest 0, k'')) := by
  have hloop : ∃ k'', readLoop m locals v.pbr fuel (k' + 2) e.firstClusterNumber e.size dest 0
      = some (.ok (stored m v.pbr e.firstClusterNumber e.size dest 0, k'')) :=
    readLoop_total hv.reads rfl locals hf
  obtain ⟨k'', hl⟩ := hloop
  refine ⟨k'', ?_⟩
  rw [fsRead_eq hv dest h, hl]
  rfl

theorem fsRead_stores (hv : v.On m) {locals : Locals} {fuel k k' k'' : Nat} {path : Mem} {e : DirEntry}
    {dest dest' : Buf} {r : Int} (h : getDirEntry m locals fuel k path = some (.ok (e, k')))
    (hr : fsRead m locals fuel k path dest = some (.ok (r, dest', k''))) :
    dest' = stored m v.pbr e.firstClusterNumber e.size dest 0 := by
  rw [fsRead_eq hv dest h] at hr
  cases hl : readLoop m locals v.pbr fuel (k' + 2) e.firstClusterNumber e.size dest 0 with
  | none =>
    rw [hl] at hr
    cases hr
  | some o =>
    rw [hl] at hr
    cases o with
    | error f => cases hr
    | ok p =>
      cases hr
      exact readLoop_apply hv.reads rfl locals hl

/-! ## files whose FAT entries have 32-bit sector numbers -/

theorem stored_eq (hv : v.On m) {c size : Nat} (hc : v.HasClusters c size)
    (hfat : ∀ i, 512 * (i + 1) < size → v.fatAt (v.chain c i) < 2^32) (dest : Buf) {x : Nat} (hx : x < size) :
    stored m v.pbr c size dest 0 x = some (v.fileByte m c x) := by
  have hfollow : (nextOf m v.pbr)^[x / 512] c = v.chain c (x / 512) :=
    follow_eq hv (x / 512) fun i hi => ⟨hc i (by omega), hfat i (by omega)⟩
  have hd := hc (x / 512) (by omega)
  have hlt : v.chain c (x / 512) < 2^28 := by
    have := hd.2.1
    omega
  unfold stored
  rw [if_pos (by omega), Nat.sub_zero, hfollow, clusterSector_eq v hd.1 hlt]
  rfl

theorem fsRead_delivers (hv : v.On m) {c size : Nat} (hc : v.HasClusters c size)
    (hfat : ∀ i, 512 * (i + 1) < size → v.fatAt (v.chain c i) < 2^32) {locals locals' : Locals} {path : Mem}
    (h : Resolves m locals path c size) (h' : Resolves m locals' path c size) :
    Delivers v m locals locals' path c size := by
  obtain ⟨fuel, e, k, he, rfl, rfl⟩ := h
  constructor
  · have he' := getDirEntry_mono hv he (Nat.le_max_left fuel (e.size / 512 + 1))
    obtain ⟨k', hr⟩ := fsRead_total hv (fun _ => none) he'
      (Nat.lt_of_lt_of_le (Nat.lt_succ_self _) (Nat.le_max_right fuel (e.size / 512 + 1)))
    refine ⟨_, _, k', hr, fun i hi => stored_eq hv hc hfat _ hi, fun i hi => ?_⟩
    unfold stored
    rw [if_neg (by omega)]
  · obtain ⟨fuel', e', k', he', -, hsize⟩ := h'
    refine ⟨fuel', k', ?_⟩
    unfold stat
    rw [he', ← hsize]

/-! ## files with an entry beyond sector `2^32` -/

theorem lowSector_apply (v : Volume) (fill : UInt8) {y : Nat} (h : y < 454 ∨ 458 ≤ y) :
    Image.lowSector v fill y = fill := write32_apart (by omega)

/-- the two bytes of an aligned word that are not the start of the partition decide about it -/
theorem lowSector_free (v : Volume) {a : Nat} (ha : a % 4 = 0) :
    read32 (Image.lowSector v 0) a ≠ read32 (Image.lowSector v 1) a := by
  have h0 : (0 : UInt8).toNat = 0 := rfl
  have h1 : (1 : UInt8).toNat = 1 := rfl
  intro h
  unfold read32 at h
  by_cases hq : a = 456
  · -- the start of the partition ends in the lower half of this word
    subst hq
    have e0 : Image.lowSector v 0 456 = Image.lowSector v 1 456 := rfl
    have e1 : Image.lowSector v 0 (456 + 1) = Image.lowSector v 1 (456 + 1) := rfl
    rw [e0, e1, lowSector_apply v 0 (y := 456 + 2) (by omega), lowSector_apply v 0 (y := 456 + 3) (by omega),
      lowSector_apply v 1 (y := 456 + 2) (by omega), lowSector_apply v 1 (y := 456 + 3) (by omega), h0, h1] at h
    omega
  · rw [lowSector_apply v 0 (y := a) (by omega), lowSector_apply v 1 (y := a) (by omega), h0, h1] at h
    omega

theorem exists_fill (v : Volume) (a n : Nat) (ha : a % 4 = 0) :
    ∃ fill, read32 (Image.lowSector v fill) a ≠ n := by
  by_cases h : read32 (Image.lowSector v 0) a = n
  · exact ⟨1, fun h' => lowSector_free v ha (h.trans h'.symm)⟩
  · exact ⟨0, h⟩

/-- any two different sectors can be made to begin with different bytes -/
theorem exists_mark (v : Volume) (c size : Nat) (fill : UInt8) (n : Nat) {x : Nat} (h : x ≠ v.clusterAt n) :
    ∃ mark, mark &&& 0xf = 1 ∧ (image v c size fill mark n).sector x 0 ≠ mark := by
  by_cases hx : (image v c size fill 0x41 n).sector x 0 = 0x41
  · refine ⟨0x21, by decide, ?_⟩
    rw [image_congr v c size fill 0x21 n 0x41 h, hx]
    decide
  · exact ⟨0x41, by decide, hx⟩

/-- the entry of `x` is looked for before the partition -/
theorem nextOf_image (c size : Nat) (fill mark : UInt8) (n : Nat) {x : Nat} (hx : v.IsData x)
    (h : 2^32 ≤ v.fatAt x) :
    nextOf (image v c size fill mark n) v.pbr x = read32 (Image.lowSector v fill) (4 * (x % 128)) := by
  have hlow : v.fatAt x % 2^32 < v.lba := by
    have h1 := v.lba_lt
    have h2 := v.reserved_lt
    have h3 := hx.2.1
    unfold Volume.fatAt at h ⊢
    omega
  unfold nextOf
  rw [fatSector_eq, image_low v c size fill mark n hlow]

theorem first_lt {c size : Nat} (hc : v.HasClusters c size) (h0 : 0 < size) : c < 2^32 := by
  have h : c < 0x0ffffff7 := (hc 0 (by omega)).2.1
  omega

theorem resolves_image (v : Volume) {c size : Nat} (hc : c < 2^32) (hs : size < 2^32) (fill : UInt8)
    {mark : UInt8} (hm : mark &&& 0xf = 1) (n : Nat) :
    Resolves (image v c size fill mark n) Image.locals Image.path c size := by
  obtain ⟨name, h⟩ := image_resolves v c size fill mark n hc hs hm 0
  exact ⟨1, _, 3, h, rfl, rfl⟩

/-- the cluster behind entry number `i` is read from the wrong sector, which begins with another byte -/
theorem image_not_delivered {c size i : Nat} (hs : size < 2^32) (hc : v.HasClusters c size)
    (hi : 512 * (i + 1) < size) (hbad : 2^32 ≤ v.fatAt (v.chain c i))
    (hfirst : ∀ j, j < i → v.fatAt (v.chain c j) < 2^32) {fill mark : UInt8} (hmark : mark &&& 0xf = 1)
    (hdiff : (image v c size fill mark (v.chain c (i + 1))).sector
      (v.pbr.clusterSector (read32 (Image.lowSector v fill) (4 * (v.chain c i % 128)))) 0 ≠ mark) :
    ¬ Delivers v (image v c size fill mark (v.chain c (i + 1))) Image.locals Image.locals Image.path c
      size := by
  intro hdel
  have hon := image_on v c size fill mark (v.chain c (i + 1))
  obtain ⟨fuel, dest, k, hr, hdest, -⟩ := hdel.fsRead
  cases fuel with
  | zero => cases hr
  | succ fuel =>
    obtain ⟨name, h⟩ := image_resolves v c size fill mark (v.chain c (i + 1)) (first_lt hc (by omega)) hs
      hmark fuel
    have hstored : dest = stored _ v.pbr c size (fun _ => none) 0 := fsRead_stores hon h hr
    have hright := hdest (512 * (i + 1)) hi
    have e0 : 512 * (i + 1) / 512 = i + 1 := by omega
    have e1 : 512 * (i + 1) % 512 = 0 := by omega
    rw [hstored] at hright
    unfold stored Volume.fileByte at hright
    rw [if_pos (by omega), Nat.sub_zero, e0, e1, Function.iterate_succ_apply',
      follow_eq hon i fun j hj => ⟨hc j (by omega), hfirst j hj⟩,
      nextOf_image c size fill mark _ (hc i (by omega)) hbad, image_mark] at hright
    exact hdiff (Option.some.inj hright)

theorem image_misled {c size i : Nat} (hs : size < 2^32) (hc : v.HasClusters c size) (hi : 512 * (i + 1) < size)
    (hbad : 2^32 ≤ v.fatAt (v.chain c i)) (hfirst : ∀ j, j < i → v.fatAt (v.chain c j) < 2^32) :
    ∃ m path locals, v.On m ∧ Resolves m locals path c size ∧ ¬ Delivers v m locals locals path c size := by
  have hn := hc (i + 1) (by omega)
  obtain ⟨fill, hfill⟩ := exists_fill v (4 * (v.chain c i % 128)) (v.chain c (i + 1)) (by omega)
  have hsector : v.pbr.clusterSector (read32 (Image.lowSector v fill) (4 * (v.chain c i % 128)))
      ≠ v.clusterAt (v.chain c (i + 1)) := by
    intro h
    have hnlt := hn.2.1
    rw [← clusterSector_eq v hn.1 (by omega)] at h
    exact hfill (clusterSector_inj v (read32_lt _ _) (by omega) h)
  obtain ⟨mark, hmark, hdiff⟩ := exists_mark v c size fill (v.chain c (i + 1)) hsector
  exact ⟨_, _, _, image_on v c size fill mark _,
    resolves_image v (first_lt hc (by omega)) hs fill hmark _,
    image_not_delivered hs hc hi hbad hfirst hmark hdiff⟩

/-! ## the exact condition -/

/-- for a file with first cluster `c` and `size` bytes on the volume `v`: it is read rightly from every
disk that holds the volume, if and only if the FAT entries that are followed are in sectors below `2^32` -/
theorem files_delivered_iff (v : Volume) (c size : Nat) (hs : size < 2^32) (hc : v.HasClusters c size) :
    (∀ m path locals locals', v.On m → Resolves m locals path c size → Resolves m locals' path c size →
      Delivers v m locals locals' path c size) ↔
    ∀ i, 512 * (i + 1) < size → v.fatAt (v.chain c i) < 2^32 := by
  constructor
  · intro h
    by_contra hn
    simp only [not_forall, Nat.not_lt] at hn
    have hn' : ∃ i, 512 * (i + 1) < size ∧ 2^32 ≤ v.fatAt (v.chain c i) := by
      obtain ⟨i, hi, hi'⟩ := hn
      exact ⟨i, hi, hi'⟩
    -- the first entry that is followed wrongly
    obtain ⟨i, hi, hmin⟩ := Nat.findX hn'
    have hfirst : ∀ j, j < i → v.fatAt (v.chain c j) < 2^32 := by
      intro j hj
      by_contra hge
      exact hmin j hj ⟨Nat.lt_trans (by omega) hi.1, Nat.le_of_not_lt hge⟩
    obtain ⟨m, path, locals, hon, hres, hnot⟩ := image_misled hs hc hi.1 hi.2 hfirst
    exact hnot (h m path locals locals hon hres hres)
  · intro hfat m path locals locals' hon hres hres'
    exact fsRead_delivers hon hc hfat hres hres'

/-- a volume with a file in the clusters `c` and `c + 1` -/
def twoClusters (lba c : Nat) (hl : 0 < lba) (hl' : lba < 2^32) (hc : c + 1 < 2^28) : Volume where
  lba := lba
  reserved := 32
  numFAT := 2
  fatSize := 4096
  fat x := if x = c then c + 1 else 0x0fffffff
  lba_pos := hl
  lba_lt := hl'
  reserved_pos := by omega
  reserved_lt := by omega
  numFAT_pos := by omega
  numFAT_lt := by omega
  fatSize_lt := by omega
  fat_lt x := by split <;> omega

theorem twoClusters_file {lba c : Nat} (hl : 0 < lba) (hl' : lba < 2^32) (hc : c + 1 < 2^28) (h2 : 2 ≤ c)
    (h : c + 1 < 524288) : (twoClusters lba c hl hl' hc).HasClusters c 1024 := by
  intro i hi
  have hi' : i < 2 := by omega
  interval_cases i
  · show 2 ≤ c ∧ c < 0x0ffffff7 ∧ c < 128 * 4096
    omega
  · show 2 ≤ (if c = c then c + 1 else 0x0fffffff) ∧ (if c = c then c + 1 else 0x0fffffff) < 0x0ffffff7 ∧
      (if c = c then c + 1 else 0x0fffffff) < 128 * 4096
    rw [if_pos rfl]
    omega

/-- a partition in the first gigabyte -/
def lowVolume : Volume := twoClusters 2048 3 (by omega) (by omega) (by omega)

theorem files_delivered_iff_two :
    ∃ m, lowVolume.On m ∧ Resolves m Image.locals Image.path 3 1024 ∧
      Delivers lowVolume m Image.locals Image.locals Image.path 3 1024 := by
  have hon := image_on lowVolume 3 1024 0 0x41 4
  have hres : Resolves (image lowVolume 3 1024 0 0x41 4) Image.locals Image.path 3 1024 :=
    resolves_image lowVolume (by omega) (by omega) 0 (by decide) 4
  have hfile : lowVolume.HasClusters 3 1024 :=
    twoClusters_file _ _ _ (by omega) (by omega)
  refine ⟨_, hon, hres, (files_delivered_iff lowVolume 3 1024 (by omega) hfile).mpr ?_ _ _ _ _ hon hres hres⟩
  intro i hi
  have h : i = 0 := by omega
  subst h
  decide

/-- a partition that starts a megabyte before sector `2^32`; the FAT entries of the file are in sector
`2^32 + 1` -/
def highVolume : Volume := twoClusters 0xfffff800 258176 (by omega) (by omega) (by omega)

theorem second_cluster_wrong :
    highVolume.On (image highVolume 258176 1024 0 0x41 258177) ∧
    highVolume.HasClusters 258176 1024 ∧
    Resolves (image highVolume 258176 1024 0 0x41 258177) Image.locals Image.path 258176 1024 ∧
    ¬ Delivers highVolume (image highVolume 258176 1024 0 0x41 258177) Image.locals Image.locals Image.path
      258176 1024 := by
  have hfile : highVolume.HasClusters 258176 1024 := twoClusters_file _ _ _ (by omega) (by omega)
  refine ⟨image_on _ _ _ _ _ _, hfile, ?_, ?_⟩
  · exact resolves_image highVolume (by omega) (by omega) 0 (by decide) 258177
  · exact image_not_delivered (i := 0) (by omega) hfile (by omega) (by decide)
      (fun j hj => absurd hj (Nat.not_lt_zero j)) (by decide) (by decide +kernel)

end StarOS
