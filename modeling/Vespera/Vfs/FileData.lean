import Mathlib.Algebra.Group.Nat.Defs
import Mathlib.Data.List.Basic

/-! # The bytes of a regular file

What `read_file` and `write_file` of `filesystem/ext4/ext4.cpp` do to the contents of a file.
The disk answers every request and has free blocks; holes read as zero.
-/

namespace Vespera.Vfs

/-- The bytes that a read operation delivers before the end of the file. The sum wraps as the
source's does. -/
def fileBytes (content : List UInt8) (offset size : Nat) : List UInt8 :=
  let size := if (offset + size) % 2 ^ 64 > content.length then content.length - offset else size
  (List.range size).map fun i => content.getD (offset + i) 0

/-- The contents after a write operation. -/
def writeFile (content : List UInt8) (offset : Nat) (bs : List UInt8) : List UInt8 :=
  (List.range (max content.length (offset + bs.length))).map fun i =>
    if offset ≤ i ∧ i < offset + bs.length then bs.getD (i - offset) 0 else content.getD i 0

/-- A file delivers no more than it was asked for. -/
theorem fileBytes_length_le {content : List UInt8} {offset size : Nat} :
    (fileBytes content offset size).length ≤ size := by
  have hwrap : (offset + size) % 2 ^ 64 ≤ offset + size := Nat.mod_le _ _
  simp only [fileBytes, List.length_map, List.length_range]
  split_ifs with hpast
  · omega
  · exact Nat.le_refl _

end Vespera.Vfs
