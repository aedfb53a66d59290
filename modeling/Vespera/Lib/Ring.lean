import Mathlib.Data.List.Basic
import Mathlib.Tactic.Common

/-! # Ring buffers

A ring of `cap` places inside a buffer, over an arbitrary type of entries. `ringRead` is the
queue that a tail position and a count stand for; `ringWrite` copies a list in from a position
on, in two parts if it runs over the end.

* `ringRead_add`: a read splits at every point;
* `ringRead_eq_slices`: a read is what two straight copies give;
* `ringRead_ringWrite`: a write behind the queue appends to it.
-/

namespace Vespera.Lib

open List

universe u

variable {α : Type u} {buf : Nat → α} {cap pos : Nat}

/-- The `n` entries of a ring of `cap` places from `pos` on. -/
def ringRead (buf : Nat → α) (cap pos n : Nat) : List α :=
  (List.range n).map fun i => buf ((pos + i) % cap)

/-- A straight copy into the buffer. -/
def splice (buf : Nat → α) (pos : Nat) (xs : List α) : Nat → α := fun i =>
  if pos ≤ i then (xs[i - pos]?).getD (buf i) else buf i

/-- A copy into the ring from `pos` on. -/
def ringWrite (buf : Nat → α) (cap pos : Nat) (xs : List α) : Nat → α :=
  splice (splice buf pos (xs.take (cap - pos))) 0 (xs.drop (cap - pos))

@[simp] theorem ringRead_length {buf : Nat → α} {cap pos n : Nat} :
    (ringRead buf cap pos n).length = n := by
  simp [ringRead]

theorem ringRead_add {n k : Nat} : ringRead buf cap pos (n + k) =
      ringRead buf cap pos n ++ ringRead buf cap ((pos + n) % cap) k := by
  unfold ringRead
  rw [range_add, map_append, map_map]
  congr 1
  apply map_congr_left
  intro i _
  simp only [Function.comp_apply]
  rw [Nat.mod_add_mod, Nat.add_assoc]

/-- A read takes a prefix of every longer one. -/
theorem ringRead_take {n k : Nat} (h : n ≤ k) :
    (ringRead buf cap pos k).take n = ringRead buf cap pos n := by
  obtain ⟨m, rfl⟩ := Nat.exists_eq_add_of_le h
  rw [ringRead_add, take_left' ringRead_length]

theorem ringRead_drop {n k : Nat} (h : n ≤ k) :
    (ringRead buf cap pos k).drop n = ringRead buf cap ((pos + n) % cap) (k - n) := by
  obtain ⟨m, rfl⟩ := Nat.exists_eq_add_of_le h
  rw [ringRead_add, drop_left' ringRead_length, Nat.add_sub_cancel_left]

/-- Inside the buffer a read is straight. -/
theorem ringRead_eq_slice {n : Nat} (h : pos + n ≤ cap) :
    ringRead buf cap pos n = (List.range n).map fun i => buf (pos + i) := by
  apply map_congr_left
  intro i hi
  rw [mem_range] at hi
  rw [Nat.mod_eq_of_lt (by omega)]

/-- A read as two straight copies. -/
theorem ringRead_eq_slices {n : Nat} (hpos : pos < cap) (hn : n ≤ cap) : ringRead buf cap pos n =
      ((List.range (min n (cap - pos))).map fun i => buf (pos + i)) ++
        (List.range (n - min n (cap - pos))).map fun i => buf (0 + i) := by
  have hsplit : n = min n (cap - pos) + (n - min n (cap - pos)) := by omega
  conv_lhs => rw [hsplit]
  rw [ringRead_add, ringRead_eq_slice (by omega)]
  congr 1
  by_cases hwrap : n ≤ cap - pos
  · have hzero : n - min n (cap - pos) = 0 := by omega
    rw [hzero]
    rfl
  · -- the second part starts at the first place again
    have hend : pos + min n (cap - pos) = cap := by omega
    rw [hend, Nat.mod_self, ringRead_eq_slice (by omega)]

/-- The places of the ring after a write, counted from where it began. -/
theorem ringWrite_apply {xs : List α} (hpos : pos < cap)
    (hxs : xs.length ≤ cap) {i : Nat} (hi : i < cap) :
    ringWrite buf cap pos xs ((pos + i) % cap) = (xs[i]?).getD (buf ((pos + i) % cap)) := by
  unfold ringWrite splice
  rw [if_pos (Nat.zero_le _), getElem?_drop, Nat.sub_zero]
  by_cases hlast : pos + i < cap
  · -- before the end: only the first part can reach this place
    rw [Nat.mod_eq_of_lt hlast, if_pos (by omega), Nat.add_sub_cancel_left,
      getElem?_take_of_lt (by omega)]
    have hnone : xs[cap - pos + (pos + i)]? = none := getElem?_eq_none (by omega)
    rw [hnone, Option.getD_none]
  -- behind the end: only the second part can
  have hmod : (pos + i) % cap = pos + i - cap := by
    rw [Nat.mod_eq_sub_mod (by omega), Nat.mod_eq_of_lt (by omega)]
  have hidx : cap - pos + (pos + i - cap) = i := by omega
  rw [hmod, hidx, if_neg (by omega)]

/-- A write behind the queue appends to it. -/
theorem ringRead_ringWrite {tail used : Nat} {xs : List α} (hcap : 0 < cap)
    (hroom : used + xs.length ≤ cap) :
    ringRead (ringWrite buf cap ((tail + used) % cap) xs) cap tail (used + xs.length) =
      ringRead buf cap tail used ++ xs := by
  have hpos : (tail + used) % cap < cap := Nat.mod_lt _ hcap
  rw [ringRead_add]
  congr 1
  · -- the old entries are further from the write than it is long
    apply map_congr_left
    intro i hi
    rw [mem_range] at hi
    have hplace : (tail + i) % cap = ((tail + used) % cap + (cap - used + i)) % cap := by
      rw [Nat.mod_add_mod, show tail + used + (cap - used + i) = tail + i + cap by omega,
        Nat.add_mod_right]
    rw [hplace, ringWrite_apply hpos (by omega) (by omega),
      getElem?_eq_none (by omega), Option.getD_none]
  apply ext_getElem (by simp)
  intro i hi hi'
  rw [ringRead_length] at hi
  simp only [ringRead, getElem_map, getElem_range]
  rw [ringWrite_apply hpos (by omega) (by omega), getElem?_eq_getElem hi', Option.getD_some]

end Vespera.Lib
