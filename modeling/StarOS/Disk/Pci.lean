import StarOS.Layout

/-!
# The PCI configuration space (`b32_disk.cpp`)

The configuration space is a table of double words, indexed by the address that is written to port
`0xcf8`.  `enumeratePCIDevices` runs `checkTarget` over all functions of all devices of all busses,
once.
-/

namespace StarOS

/-- the double word behind every address of port `0xcf8` -/
abbrev PciSpace := Nat → Nat

/-- the address of a register: enable bit, bus, device, function, byte offset -/
def pciAddress (bus device func offset : Nat) : Nat :=
  (1 <<< 31) ||| (bus <<< 16) ||| ((device &&& 0b11111) <<< 11) ||| ((func &&& 0b111) <<< 8) ||| offset

def readLongPCIConfigSpace (cfg : PciSpace) (bus device func offset : Nat) : Nat :=
  cfg (pciAddress bus device func offset)

def writeLongPCIConfigSpace (cfg : PciSpace) (bus device func offset data : Nat) : PciSpace :=
  fun a => if a = pciAddress bus device func offset then data else cfg a

/-- the 64 registers of a function -/
def readTargetConfigSpace (cfg : PciSpace) (bus device func : Nat) : Nat → Nat :=
  fun i => readLongPCIConfigSpace cfg bus device func (i <<< 2)

/-- `check_target`; the programming interface is written back into the low byte, as the source
does -/
def checkTarget (cfg : PciSpace) (bus device func : Nat) : PciSpace :=
  let buf := readTargetConfigSpace cfg bus device func
  if buf 0 = 0xffffffff then cfg
  else
    let data := buf 2
    let classCode := (data >>> 24) % 256
    let subclass := (data >>> 16) % 256
    let progIf := (data >>> 8) % 256
    if classCode = 1 ∧ subclass = 1 ∧ progIf = 0x8f then
      let newData := (classCode <<< 24) ||| (subclass <<< 16) ||| (progIf &&& 0x8a) ||| (data &&& 0xff)
      writeLongPCIConfigSpace cfg bus device func (2 <<< 2) newData
    else cfg

structure Pci where
  space : PciSpace
  pciDone : Bool

def enumeratePCIDevices (s : Pci) : Pci :=
  if s.pciDone then s
  else
    { space := (List.range 256).foldl (fun cfg bus =>
        (List.range 32).foldl (fun cfg device =>
          (List.range 8).foldl (fun cfg func => checkTarget cfg bus device func) cfg) cfg) s.space
      pciDone := true }

end StarOS
