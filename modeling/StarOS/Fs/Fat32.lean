import StarOS.Disk.Ide
import StarOS.Strings
import StarOS.Fatal

/-!
# The FAT32 reader (`b32_filesystem.cpp`)

A `Medium` is the disk behind `read_disk_sector(n, 1, dest)`: what its sectors hold, and which
reads fail.  A failed read stores nothing; no caller here looks at the return code.  The reads of
a run are numbered: the argument `k` of a function is the number of reads before it, and a
function whose number of reads is not fixed returns the new number.

`Locals` is what the uninitialised locals hold, for a function that starts after `k` reads.

* `loadPbr`, `readCluster`, `nextCluster`   boot record, data area and FAT;
* `locateFileDirent`   the search through the directories, one sector each;
* `stat`, `fat32Read`, `fsRead`   the interface.

Directories can form a cycle and a boot record can say that sectors have 0 bytes, so the search
and the read loop take fuel; `none` says that they have not returned yet.
-/

namespace StarOS
open Lib

structure Medium where
  sector : Nat → Nat → UInt8
  fails : Nat → Bool

/-- the `k`-th read, of sector `n` into a local buffer -/
def Medium.readInto (m : Medium) (k n : Nat) (buffer : Mem) : Mem :=
  if m.fails k then buffer else fun x => if x < 512 then m.sector n x else buffer x

/-- the `k`-th read, of sector `n` into the buffer of the caller from offset `off` on -/
def Medium.readTo (m : Medium) (k n : Nat) (dest : Buf) (off : Nat) : Buf :=
  if m.fails k then dest
  else fun x => if off ≤ x ∧ x < off + 512 then some (m.sector n (x - off)) else dest x

structure Locals where
  /-- `current_part_filename` of `locate_file_dirent` -/
  currentPartFilename : Nat → Mem
  /-- `abstract_entry.name` of `locate_file_dirent` -/
  name : Nat → Mem
  /-- `buffer` or `tmp`, whichever the read is into -/
  buffer : Nat → Mem

/-! ## mounted file systems -/

inductive DeviceType where
  | pciIde
deriving DecidableEq

inductive FilesystemType where
  | fat32
deriving DecidableEq

structure Partition where
  t : DeviceType
  deviceNumber : Nat
  partitionNumber : Nat

structure FsEntry where
  mountPoint : List UInt8
  filesystemType : FilesystemType
  partition : Partition

/-- `FS_TABLE[0]` after `init_fstab` -/
def fsTableEntry : FsEntry := ⟨[0x2f], .fat32, ⟨.pciIde, 0, 0⟩⟩

def matchFs (_filename : Mem) : FsEntry := fsTableEntry

/-! ## boot record, clusters, FAT -/

/-- the fields of the partition boot record that are read -/
structure Pbr where
  bytesPerSector : Nat
  sectorsPerCluster : Nat
  numReservedSectors : Nat
  numFAT : Nat
  sectorsPerFAT16 : Nat
  hiddenSectors : Nat
  sectorsPerFAT32 : Nat

/-- `*(PBR *)buffer` -/
def Pbr.ofBuffer (buffer : Mem) : Pbr where
  bytesPerSector := read16 buffer 11
  sectorsPerCluster := (buffer 13).toNat
  numReservedSectors := read16 buffer 14
  numFAT := (buffer 16).toNat
  sectorsPerFAT16 := read16 buffer 22
  hiddenSectors := read32 buffer 28
  sectorsPerFAT32 := read32 buffer 36

/-- `load_PBR`: both sectors are read into the same buffer -/
def loadPbr (m : Medium) (locals : Locals) (k : Nat) : Pbr :=
  let buffer := m.readInto k 0 (locals.buffer k)
  let lba := read32 buffer (0x1be + 8)
  Pbr.ofBuffer (m.readInto (k + 1) lba buffer)

/-- the sector `read_cluster` reads: `(directory_cluster_num - 2) * sectors_per_cluster` is an
`int`, the sum a `uint64_t` -/
def Pbr.clusterSector (pbr : Pbr) (clusterNum : Nat) : Nat :=
  let fatSize := if pbr.sectorsPerFAT16 = 0 then pbr.sectorsPerFAT32 else pbr.sectorsPerFAT16
  let rootDirSectors := 0
  let firstDataSector := wrap64 (pbr.numReservedSectors + pbr.numFAT * fatSize + rootDirSectors)
  let offset : Int := Int.bmod (((clusterNum : Int) - 2) * pbr.sectorsPerCluster) (2^32)
  ((offset + firstDataSector + pbr.hiddenSectors) % 2^64).toNat

/-- `read_cluster` into a local buffer -/
def readCluster (m : Medium) (k clusterNum : Nat) (pbr : Pbr) (buffer : Mem) : Mem :=
  m.readInto k (pbr.clusterSector clusterNum) buffer

/-- `read_cluster` into the buffer of the caller -/
def readClusterTo (m : Medium) (k clusterNum : Nat) (pbr : Pbr) (dest : Buf) (off : Nat) : Buf :=
  m.readTo k (pbr.clusterSector clusterNum) dest off

/-- the sector `next_cluster` reads: the three terms are `uint32_t`, and so is their sum -/
def Pbr.fatSector (pbr : Pbr) (clusterNum : Nat) : Nat :=
  wrap32 (pbr.numReservedSectors + clusterNum / 128 + pbr.hiddenSectors)

def nextCluster (m : Medium) (locals : Locals) (k clusterNum : Nat) (pbr : Pbr) : Nat :=
  read32 (m.readInto k (pbr.fatSector clusterNum) (locals.buffer k)) (4 * (clusterNum % 128))

/-! ## directories -/

def maxFilenameSize : Nat := 256

structure DirEntry where
  name : Mem
  firstClusterNumber : Nat
  size : Nat

/-- `n` rounds of the loop that splits the current part from `filename`, from index `i` on: the
part, and what `filename` points to afterwards.  A null byte does not end it. -/
def splitPart (filename : Mem) : Nat → Nat → Mem → Mem × Mem
  | 0, _, part => (part, filename)
  | n + 1, i, part =>
    if filename i = 0x2f then (writeByte part i 0, advance filename (i + 1))
    else splitPart filename n (i + 1) (writeByte part i (filename i))

/-- the `i`-th character of a long name entry: `chars1`, `chars2`, `chars3` -/
def lfnChar (lfn : Mem) (i : Nat) : Nat :=
  if i < 5 then read16 lfn (1 + 2 * i)
  else if i < 11 then read16 lfn (14 + 2 * (i - 5))
  else read16 lfn (28 + 2 * (i - 11))

/-- `n` rounds of the loop that copies the characters of a long name entry; `0xffff` is padding -/
def copyChars (lfn : Mem) : Nat → Nat → Int → Mem → Except Fatal Mem
  | 0, _, _, name => .ok name
  | n + 1, i, offset, name =>
    if lfnChar lfn i ≠ 0xffff then
      if 0 ≤ offset ∧ offset < maxFilenameSize + 1 then
        copyChars lfn n (i + 1) (offset + 1) (writeByte name offset.toNat (UInt8.ofNat (lfnChar lfn i)))
      else .error .outOfBounds
    else copyChars lfn n (i + 1) offset name

/-- the string in the first `n` bytes of an array -/
def cString (p : Mem) (n : Nat) : List UInt8 := ((List.range n).map p).takeWhile (· ≠ 0)

/-- what a search in one directory ends with -/
inductive Found where
  | file (e : DirEntry)
  | directory (firstClusterNumber : Nat)

/-- `n` rounds of the loop over the entries of a directory, from entry `i` on -/
def scanTable (part table : Mem) : Nat → Nat → Mem → Except Fatal Found
  | 0, _, _ => .error (.fileNotFound (cString part (maxFilenameSize + 1)))
  | n + 1, i, name =>
    let entry := advance table (32 * i)
    if entry 11 = 0x0f then
      let order : Int := (entry 0 &&& 0xf).toNat
      match copyChars entry 13 0 ((order - 1) * 13) name with
      | .error f => .error f
      | .ok name => scanTable part table n (i + 1) name
    else
      let firstClusterNumber := read16 entry 20 * 2^16 + read16 entry 26
      let size := read32 entry 28
      match strcmp (maxFilenameSize + 1) part name with
      | none => .error .outOfBounds
      | some r =>
        if r = 0 then
          if entry 11 &&& 0x10 = 0 then .ok (.file ⟨name, firstClusterNumber, size⟩)
          else .ok (.directory firstClusterNumber)
        else scanTable part table n (i + 1) name

/-- the entry, and the number of reads after it -/
def locateFileDirent (m : Medium) (locals : Locals) (pbr : Pbr) :
    Nat → Nat → Nat → Mem → Option (Except Fatal (DirEntry × Nat))
  | 0, _, _, _ => none
  | fuel + 1, k, directoryClusterNum, filename =>
    let r := splitPart filename maxFilenameSize 0 (locals.currentPartFilename k)
    let buffer := readCluster m k directoryClusterNum pbr (locals.buffer k)
    match scanTable r.1 buffer (512 / 32) 0 (locals.name k) with
    | .error f => some (.error f)
    | .ok (.file e) => some (.ok (e, k + 1))
    | .ok (.directory c) => locateFileDirent m locals pbr fuel (k + 1) c r.2

/-- `remove_mount_point`; the null byte at the end of the mount point is the end of the list -/
def removeMountPoint : Mem → List UInt8 → Mem
  | p1, [] => if p1 0 = 0x2f then advance p1 1 else p1
  | p1, _ :: p2 => if p1 0 ≠ 0 then removeMountPoint (advance p1 1) p2 else p1

/-! ## the interface -/

def getDirEntry (m : Medium) (locals : Locals) (fuel k : Nat) (pathname : Mem) :
    Option (Except Fatal (DirEntry × Nat)) :=
  let fs := matchFs pathname
  if ¬ (fs.filesystemType = .fat32 ∧ fs.partition.t = .pciIde) then some (.error .notSupported)
  else
    let pathname := removeMountPoint pathname fs.mountPoint
    let pbr := loadPbr m locals k
    let clusterNum := 2
    locateFileDirent m locals pbr fuel (k + 2) clusterNum pathname

/-- what `stat` stores in `st_size` -/
def stat (m : Medium) (locals : Locals) (fuel k : Nat) (pathname : Mem) :
    Option (Except Fatal (Nat × Nat)) :=
  match getDirEntry m locals fuel k pathname with
  | none => none
  | some (.error f) => some (.error f)
  | some (.ok (e, k)) => some (.ok (e.size, k))

/-- `n` rounds of `dest_buffer[i] = tmp[i]`, `dest_buffer` being at offset `off` -/
def copyBytes (tmp : Mem) (dest : Buf) (off : Nat) : Nat → Buf
  | 0 => dest
  | n + 1 => fun x => if x = off + n then some (tmp n) else copyBytes tmp dest off n x

/-- the loop of `fat32_read`; `read_cluster` stores 512 bytes into `tmp[bytes_per_sector]` -/
def readLoop (m : Medium) (locals : Locals) (pbr : Pbr) :
    Nat → Nat → Nat → Nat → Buf → Nat → Option (Except Fatal (Buf × Nat))
  | 0, _, _, _, _, _ => none
  | fuel + 1, k, fileClusterNum, bytesToRead, dest, off =>
    if bytesToRead = 0 then some (.ok (dest, k))
    else if bytesToRead < pbr.bytesPerSector then
      if pbr.bytesPerSector < 512 ∧ m.fails k = false then some (.error .outOfBounds)
      else
        let tmp := readCluster m k fileClusterNum pbr (locals.buffer k)
        some (.ok (copyBytes tmp dest off bytesToRead, k + 1))
    else
      let dest := readClusterTo m k fileClusterNum pbr dest off
      let fileClusterNum := nextCluster m locals (k + 1) fileClusterNum pbr
      readLoop m locals pbr fuel (k + 2) fileClusterNum (bytesToRead - pbr.bytesPerSector) dest
        (off + pbr.bytesPerSector)

/-- the return code, what was stored in the buffer, the number of reads -/
def fat32Read (m : Medium) (locals : Locals) (fuel k : Nat) (filename : Mem) (dest : Buf) :
    Option (Except Fatal (Int × Buf × Nat)) :=
  match getDirEntry m locals fuel k filename with
  | none => none
  | some (.error f) => some (.error f)
  | some (.ok (e, k)) =>
    let pbr := loadPbr m locals k
    match readLoop m locals pbr fuel (k + 2) e.firstClusterNumber e.size dest 0 with
    | none => none
    | some (.error f) => some (.error f)
    | some (.ok (dest, k)) => some (.ok (0, dest, k))

def fsRead (m : Medium) (locals : Locals) (fuel k : Nat) (filename : Mem) (buffer : Buf) :
    Option (Except Fatal (Int × Buf × Nat)) :=
  let f := matchFs filename
  if ¬ (f.filesystemType = .fat32 ∧ f.partition.t = .pciIde) then some (.ok (-1, buffer, k))
  else if f.filesystemType = .fat32 then fat32Read m locals fuel k filename buffer
  else some (.ok (-1, buffer, k))

end StarOS
