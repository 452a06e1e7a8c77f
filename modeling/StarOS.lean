import StarOS.Lib.Run
import StarOS.Lib.Halt
import StarOS.Lib.Tiling
import StarOS.Lib.Bytes
import StarOS.Lib.Loop
import StarOS.Lib.Chain
import StarOS.Lib.Compare
import StarOS.Lib.Sweep
import StarOS.Lib.Stack
import StarOS.Layout
import StarOS.Strings
import StarOS.Strings.Order
import StarOS.Fatal
import StarOS.Print
import StarOS.Format
import StarOS.Format.Trace
import StarOS.Heap.Alloc
import StarOS.Heap.Tiled
import StarOS.Heap.Wear
import StarOS.Heap.Contract
import StarOS.Paging.Table
import StarOS.Paging.Refine
import StarOS.Disk.Pci
import StarOS.Disk.Enumerate
import StarOS.Disk.Ide
import StarOS.Disk.Read
import StarOS.Disk.Chunks
import StarOS.Fs.Fat32
import StarOS.Fs.Volume
import StarOS.Fs.Image
import StarOS.Fs.Read
import StarOS.Fs.Directory
import StarOS.Fs.Search
import StarOS.Fs.Walk
import StarOS.Fs.Sector
import StarOS.Fs.Entry
import StarOS.Fs.Bounds
import StarOS.Fs.Depth
import StarOS.Fs.Certain
import StarOS.Fs.Same
import StarOS.Fs.Names
import StarOS.Fs.Errors
import StarOS.Keyboard.Tables
import StarOS.Keyboard.Ps2
import StarOS.Keyboard.Decode
import StarOS.Keyboard.Resync
import StarOS.Kernel.State
import StarOS.Kernel.Nodes
import StarOS.Kernel.Steps
import StarOS.Kernel.Outcome
import StarOS.Kernel.Queues
import StarOS.Kernel.Switch
import StarOS.Kernel.Sleep
import StarOS.Kernel.Gets
import StarOS.Kernel.Current
import StarOS.Kernel.History
import StarOS.Kernel.Gdt
import StarOS.Kernel.Printf
import StarOS.Kernel.Idt
import StarOS.Kernel.Preempt
import StarOS.Exec.Elf
import StarOS.Exec.Serve
import StarOS.Exec.Frames
import StarOS.Exec.Count
import StarOS.Exec.Represent
import StarOS.Exec.Pool
import StarOS.Exec.Isolation
import StarOS.Exec.Content
import StarOS.Exec.Segments
import StarOS.Exec.Overlap
import StarOS.Exec.Regions
import StarOS.Exec.Access
import StarOS.Kernel.Typed
import StarOS.Kernel.Copy
import StarOS.Kernel.Answer
import StarOS.Kernel.Fault
import StarOS.Kernel.Memory
import StarOS.Kernel.Lifetime
import StarOS.Kernel.Rounds
import StarOS.Kernel.Alltraps
import StarOS.Lib.Place
import StarOS.Fs.OnDisk
import StarOS.Boot.Bootloader
import StarOS.Exec.FromDisk
import StarOS.Kernel.AddressSpace
import StarOS.Kernel.OwnMemory
import StarOS.Kernel.UserPrintf
import StarOS.Lib.Pic
import StarOS.Kernel.Pic
import StarOS.Fs.Driver
import StarOS.Kernel.FlatMemory
import StarOS.Kernel.Received
