/-!
# The ways the kernel halts

`fatal` prints its message and loops for ever, and `panic` is `fatal`.  A function of the kernel
that can halt returns `Except Fatal _`; a constructor stands for one message, with the values it
prints.  Four have no message, since the source does not check for them: `nullProcess` stands for
the use of a null `Process *`, `outOfBounds` for an access outside an array or a buffer, after which
the source no longer says what happens, `kernelStackOverflow` for page faults that nest without end,
and `endlessPageFault` for an instruction that faults again each time.
-/

namespace StarOS

inductive Fatal where
  /-- `"invalid scan_code 0x%x"` -/
  | invalidScanCode (lowByte : Nat)
  /-- `"invalid scan_code 0x%x%x"` -/
  | invalidLongScanCode (highWord lowWord : Nat)
  /-- `"elem not found"` -/
  | elemNotFound
  /-- `"Element not found in linked list"` -/
  | elementNotFound
  /-- `"Empty queue to pop"` -/
  | emptyQueueToPop
  /-- `"GDT exceeds limit: %d"` -/
  | gdtExceedsLimit (index : Nat)
  /-- `"address is not aligned to 4KB boundary"` -/
  | notAligned
  /-- `"copy process mapping failed, count is too large, %d 0x%x"` -/
  | countTooLarge (count : Nat)
  /-- `"Invalid source of system entry"` -/
  | invalidSource
  /-- `"Invalid source of system entry sleep"` -/
  | invalidSourceSleep
  /-- `"microseconds too large: %d"` -/
  | microsecondsTooLarge (microseconds : Nat)
  /-- `"syscall id not supported"` -/
  | syscallNotSupported
  /-- `"Unsupported IRQ %d"` -/
  | unsupportedIRQ (irq : Nat)
  /-- `"File not found: %s\n"` -/
  | fileNotFound (currentPartFilename : List UInt8)
  /-- `"Not supported FS or device"` -/
  | notSupported
  /-- `"Non printable char 0x%x"` -/
  | nonPrintableChar (c : Nat)
  /-- `"Unsupported Program header entry %d."` -/
  | unsupportedProgramHeader (i : Nat)
  /-- `"Unsupported program file"` -/
  | unsupportedProgramFile
  | nullProcess
  | outOfBounds
  | kernelStackOverflow
  | endlessPageFault
deriving DecidableEq

end StarOS
