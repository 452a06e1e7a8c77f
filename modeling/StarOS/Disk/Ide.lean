import StarOS.Disk.Pci

/-!
# The IDE driver (`b32_disk.cpp`) and the drive it talks to

`Drive` is an ATA drive as the driver sees it: five registers that keep what was last written, a
READ command that queues the sectors at the 28-bit address the registers then hold (sector count
`0` meaning 256), a data port that hands the queue out word by word, and the status bytes it will
answer with, in order.  A call that polls past the last of them has not returned: `none`.

`readIdeDiskSector` writes the drive register only if the drive is not the cached one.  A buffer
is a function that is `none` where nothing was stored.
-/

namespace StarOS

/-- what a buffer holds; `none` where nothing was stored -/
abbrev Buf := Nat → Option UInt8

structure Drive where
  sectors : Nat → Nat → UInt8
  sectorCount : Nat
  lbaLo : Nat
  lbaMid : Nat
  cylinderHigh : Nat
  drive : Nat
  data : List UInt8
  status : List UInt8

inductive Register where
  | sectorCount | lbaLo | lbaMid | cylinderHigh | drive | command
deriving DecidableEq

/-- the 28-bit address the registers hold -/
def Drive.lba28 (d : Drive) : Nat :=
  d.drive % 16 * 2^24 + d.cylinderHigh * 2^16 + d.lbaMid * 2^8 + d.lbaLo

/-- the bytes of the sectors the registers name -/
def Drive.transfer (d : Drive) : List UInt8 :=
  (List.range (512 * (if d.sectorCount = 0 then 256 else d.sectorCount))).map fun j =>
    d.sectors (d.lba28 + j / 512) (j % 512)

/-- `outb` on a register of the drive; the port takes the low 8 bits -/
def Drive.outb (d : Drive) (r : Register) (v : Nat) : Drive :=
  match r with
  | .sectorCount => { d with sectorCount := v % 256 }
  | .lbaLo => { d with lbaLo := v % 256 }
  | .lbaMid => { d with lbaMid := v % 256 }
  | .cylinderHigh => { d with cylinderHigh := v % 256 }
  | .drive => { d with drive := v % 256 }
  | .command => if v % 256 = 0x20 then { d with data := d.transfer } else d

/-- `inw` on the data port -/
def Drive.inw (d : Drive) : Nat × Drive :=
  match d.data with
  | lo :: hi :: rest => (lo.toNat + 256 * hi.toNat, { d with data := rest })
  | _ => (0xffff, d)

def DRQ : UInt8 := 0x8
def ERR : UInt8 := 0x1

/-- `while (data & 0x80) data = inb(status)` -/
def pollBusy (data : UInt8) : List UInt8 → Option (UInt8 × List UInt8)
  | [] => if data &&& 0x80 ≠ 0 then none else some (data, [])
  | b :: bs => if data &&& 0x80 ≠ 0 then pollBusy b bs else some (data, b :: bs)

/-- `while ((data & (DRQ | ERR)) == 0) data = inb(status)` -/
def pollReady (data : UInt8) : List UInt8 → Option (UInt8 × List UInt8)
  | [] => if data &&& (DRQ ||| ERR) = 0 then none else some (data, [])
  | b :: bs => if data &&& (DRQ ||| ERR) = 0 then pollReady b bs else some (data, b :: bs)

/-- `n` reads of the status register whose values are dropped -/
def Drive.delay (d : Drive) (n : Nat) : Option Drive :=
  if d.status.length < n then none else some { d with status := d.status.drop n }

/-- the status byte the two polling loops end with -/
def Drive.poll (d : Drive) : Option (UInt8 × Drive) :=
  match d.status with
  | [] => none
  | b :: bs =>
    (pollBusy b bs).bind fun r => (pollReady r.1 r.2).map fun r' => (r'.1, { d with status := r'.2 })

/-- `buf[i] = word` on a little-endian machine, at byte offset `off` -/
def storeWord (dest : Buf) (off w : Nat) : Buf := fun x =>
  if x = off then some (UInt8.ofNat w) else if x = off + 1 then some (UInt8.ofNat (w / 256)) else dest x

/-- `n` rounds of `word = inw(data); buf[i] = word` -/
def readWords : Nat → Drive → Buf → Nat → Drive × Buf
  | 0, d, dest, _ => (d, dest)
  | n + 1, d, dest, off => readWords n d.inw.2 (storeWord dest off d.inw.1) (off + 2)

structure Ide where
  cachedPortBase : Nat
  cachedIsMaster : Bool
  drive : Drive

/-- the selection of the drive at the head of `read_ide_disk_sector` -/
def Ide.select (s : Ide) (portBase : Nat) (isMaster : Bool) (lba : Nat) : Option Ide :=
  if s.cachedPortBase ≠ portBase ∨ s.cachedIsMaster ≠ isMaster then
    ((s.drive.outb .drive (0xe0 ||| ((!isMaster).toNat <<< 4) ||| ((lba >>> 24) &&& 0x0f))).delay 15).map
      fun d => ⟨portBase, isMaster, d⟩
  else some s

/-- address, sector count and READ command -/
def Drive.send (d : Drive) (lba count : Nat) : Drive :=
  ((((d.outb .sectorCount (count &&& 0xff)).outb .lbaLo (lba &&& 0xff)).outb .lbaMid (lba >>> 8)).outb
    .cylinderHigh (lba >>> 16)).outb .command 0x20

/-- one round of `read_ide_disk_sector`, with `count` at most 256: `0` or `-1`, the state and the
buffer, written from offset `off` on -/
def readChunk (s : Ide) (portBase : Nat) (isMaster : Bool) (lba count : Nat) (dest : Buf) (off : Nat) :
    Option (Int × Ide × Buf) :=
  (s.select portBase isMaster lba).bind fun s =>
    (s.drive.send lba count).poll.map fun r =>
      if r.1 &&& DRQ ≠ 0 then
        let t := readWords (256 * count) r.2 dest off
        (0, { s with drive := t.1 }, t.2)
      else (-1, { s with drive := r.2 }, dest)

/-- `read_ide_disk_sector`: more than 256 sectors are read in rounds, the buffer advanced by 512
bytes between them as the source does -/
def readIdeDiskSector (s : Ide) (portBase : Nat) (isMaster : Bool) (lba count : Nat) (dest : Buf)
    (off : Nat) : Option (Int × Ide × Buf) :=
  (readChunk s portBase isMaster lba (min count 256) dest off).bind fun r =>
    if r.1 = 0 ∧ count > 256 then
      readIdeDiskSector r.2.1 portBase isMaster (wrap64 (lba + 256)) (count - 256) r.2.2 (off + 512)
    else some r
termination_by count
decreasing_by omega

structure Disk where
  pci : Pci
  ide : Ide

/-- nothing is cached yet -/
def Disk.boot (space : PciSpace) (d : Drive) : Disk := ⟨⟨space, false⟩, ⟨0, false, d⟩⟩

/-- `read_disk_sector` -/
def readDiskSector (s : Disk) (sectorNumber count : Nat) (dest : Buf) : Option (Int × Disk × Buf) :=
  let pci := enumeratePCIDevices s.pci
  (readIdeDiskSector s.ide 0x1f0 true sectorNumber count dest 0).map fun r =>
    (r.1, ⟨pci, r.2.1⟩, r.2.2)

/-! ## a chunk -/

theorem read_small {s : Ide} {portBase : Nat} {isMaster : Bool} {lba count : Nat} {dest : Buf}
    {off : Nat} (hc : count ≤ 256) :
    readIdeDiskSector s portBase isMaster lba count dest off
      = readChunk s portBase isMaster lba count dest off := by
  rw [readIdeDiskSector, Nat.min_eq_left hc]
  have h : ∀ r : Int × Ide × Buf, ¬ (r.1 = 0 ∧ count > 256) := fun r h => by omega
  simp only [h, if_false]
  exact Option.bind_fun_some _

theorem readWords_spec (n : Nat) (d : Drive) (dest : Buf) (off i : Nat) (h : 2 * n ≤ d.data.length) :
    (readWords n d dest off).2 i
      = if off ≤ i ∧ i < off + 2 * n then d.data[i - off]? else dest i := by
  induction n generalizing d dest off with
  | zero =>
    rw [if_neg (by omega)]
    rfl
  | succ n ih =>
    match hd : d.data with
    | [] =>
      rw [hd] at h
      simp only [List.length_nil] at h
      omega
    | [_] =>
      rw [hd] at h
      simp only [List.length_singleton] at h
      omega
    | lo :: hi :: rest =>
      have hw : d.inw = (lo.toNat + 256 * hi.toNat, { d with data := rest }) := by
        simp only [Drive.inw, hd]
      rw [hd] at h
      simp only [List.length_cons] at h
      show (readWords n d.inw.2 (storeWord dest off d.inw.1) (off + 2)).2 i = _
      rw [hw, ih _ _ _ (show 2 * n ≤ rest.length by omega)]
      by_cases h1 : off + 2 ≤ i ∧ i < off + 2 + 2 * n
      · rw [if_pos h1, if_pos (by omega)]
        have e : i - off = (i - (off + 2)) + 2 := by omega
        rw [e]
        rfl
      · rw [if_neg h1]
        have hlo := lo.toNat_lt
        have hhi := hi.toNat_lt
        by_cases h0 : i = off
        · rw [if_pos (by omega), h0, Nat.sub_self]
          simp only [storeWord, if_true, List.getElem?_cons_zero, Option.some.injEq]
          apply UInt8.toNat_inj.mp
          rw [UInt8.toNat_ofNat']
          omega
        · by_cases h2 : i = off + 1
          · rw [if_pos (by omega), h2]
            have e : off + 1 - off = 1 := by omega
            have hne : off + 1 ≠ off := by omega
            rw [e]
            simp only [storeWord, hne, if_true, if_false, List.getElem?_cons_succ,
              List.getElem?_cons_zero, Option.some.injEq]
            apply UInt8.toNat_inj.mp
            rw [UInt8.toNat_ofNat']
            omega
          · rw [if_neg (by omega)]
            simp only [storeWord, h0, h2, if_false]

/-- the registers other than the drive register are all written before a READ -/
theorem send_data (d : Drive) (lba count : Nat) (hc : 1 ≤ count) (hc' : count ≤ 256) :
    (d.send lba count).data = (List.range (512 * count)).map fun j =>
      d.sectors (d.drive % 16 * 2^24 + lba % 2^24 + j / 512) (j % 512) := by
  have hcount : (if (count &&& 0xff) % 256 = 0 then 256 else (count &&& 0xff) % 256) = count := by
    have e : count &&& 0xff = count % 256 := Nat.and_two_pow_sub_one_eq_mod count 8
    rw [e]
    by_cases h : count = 256
    · subst h; rfl
    · rw [if_neg (by omega)]
      omega
  have hlba : d.drive % 16 * 2^24 + (lba >>> 16) % 256 * 2^16 + (lba >>> 8) % 256 * 2^8
      + (lba &&& 0xff) % 256 = d.drive % 16 * 2^24 + lba % 2^24 := by
    have e : lba &&& 0xff = lba % 256 := Nat.and_two_pow_sub_one_eq_mod lba 8
    rw [e, Nat.shiftRight_eq_div_pow, Nat.shiftRight_eq_div_pow]
    omega
  show (List.range (512 * (if (count &&& 0xff) % 256 = 0 then 256 else (count &&& 0xff) % 256))).map
    (fun j => d.sectors (d.drive % 16 * 2^24 + (lba >>> 16) % 256 * 2^16 + (lba >>> 8) % 256 * 2^8
      + (lba &&& 0xff) % 256 + j / 512) (j % 512)) = _
  rw [hcount, hlba]

end StarOS
