import Mathlib.Data.Nat.Basic
import Mathlib.Tactic.Ring

/-! # Byte-addressed memory

A memory is a function from addresses to bytes. Words are little-endian:
`load n m a` reads the `n` bytes from `a` on as a number, `store n m a v`
writes the low `n` bytes of `v` there. `fill` and `copy` are the C functions
`memset` and `memcpy`.

The rules used everywhere else are of two kinds:

* read after write: `load_store_self`, `load_fill`;
* frame rules: a write leaves every byte outside its range alone
  (`store_of_not_mem`, `fill_of_not_mem`, `copy_of_not_mem`), hence every word
  that does not meet the range (`load_store_of_disjoint`, ...).

`Disjoint₂ a n b k` is the arithmetic form of "`[a, a+n)` and `[b, b+k)` do not
meet" that these rules take, so that `omega` discharges it.
-/

namespace Vespera.Lib

/-- Memory: a byte for every address. -/
abbrev ByteMem := Nat → UInt8

/-- `[a, a+n)` and `[b, b+k)` lie one after the other. -/
@[reducible] def Disjoint₂ (a n b k : Nat) : Prop := a + n ≤ b ∨ b + k ≤ a

namespace ByteMem

/-- The `n` bytes from `a` on, least significant first. -/
def load : Nat → ByteMem → Nat → Nat
  | 0, _, _ => 0
  | n + 1, m, a => (m a).toNat + 256 * load n m (a + 1)

/-- Write the low `n` bytes of `v` from `a` on, least significant first. -/
def store (n : Nat) (m : ByteMem) (a v : Nat) : ByteMem := fun b =>
  if a ≤ b ∧ b < a + n then UInt8.ofNat (v / 256 ^ (b - a)) else m b

/-- `memset(a, v, n)`. -/
def fill (m : ByteMem) (a : Nat) (v : UInt8) (n : Nat) : ByteMem := fun b =>
  if a ≤ b ∧ b < a + n then v else m b

/-- `memcpy(dst, src, n)` inside one memory. -/
def copy (m : ByteMem) (dst src n : Nat) : ByteMem := fun b =>
  if dst ≤ b ∧ b < dst + n then m (src + (b - dst)) else m b

/-- Consecutive 8-byte words. -/
def storeWords : ByteMem → Nat → List Nat → ByteMem
  | m, _, [] => m
  | m, a, w :: ws => storeWords (store 8 m a w) (a + 8) ws

/-- Write bytes from an address on. -/
def storeBytes (m : ByteMem) (a : Nat) (bs : List UInt8) : ByteMem := fun b =>
  if a ≤ b ∧ b < a + bs.length then bs.getD (b - a) 0 else m b

/-- Write one byte. -/
def set (m : ByteMem) (a : Nat) (v : UInt8) : ByteMem := fun b => if b = a then v else m b

/-! ## Frame rules -/

section Frame

variable {m m' : ByteMem} {a b n k v : Nat} {c : UInt8}

theorem store_of_not_mem (h : b < a ∨ a + n ≤ b) : store n m a v b = m b := if_neg (by omega)

theorem fill_of_not_mem (h : b < a ∨ a + n ≤ b) : fill m a c n b = m b := if_neg (by omega)

theorem fill_of_mem (h : a ≤ b ∧ b < a + n) : fill m a c n b = c := if_pos h

theorem copy_of_not_mem {src : Nat} (h : b < a ∨ a + n ≤ b) : copy m a src n b = m b :=
  if_neg (by omega)

theorem set_of_ne (h : b ≠ a) : set m a c b = m b := if_neg h

/-- A word depends only on its own bytes. -/
theorem load_congr (h : ∀ b, a ≤ b → b < a + n → m b = m' b) : load n m a = load n m' a := by
  induction n generalizing a with
  | zero => rfl
  | succ n ih =>
    have hhead : m a = m' a := h a le_rfl (by omega)
    have htail : load n m (a + 1) = load n m' (a + 1) := by
      apply ih
      intro b hb hb'
      exact h b (by omega) (by omega)
    simp only [load, hhead, htail]

theorem load_store_of_disjoint (h : Disjoint₂ a n b k) : load k (store n m a v) b = load k m b :=
  load_congr fun _ _ _ => store_of_not_mem (by omega)

theorem load_fill_of_disjoint (h : Disjoint₂ a n b k) : load k (fill m a c n) b = load k m b :=
  load_congr fun _ _ _ => fill_of_not_mem (by omega)

end Frame

theorem load_lt (n : Nat) (m : ByteMem) (a : Nat) : load n m a < 256 ^ n := by
  induction n generalizing a with
  | zero => exact Nat.one_pos
  | succ n ih =>
    have hbyte : (m a).toNat < 256 := (m a).toNat_lt
    have htail := ih (a + 1)
    rw [load, pow_succ]
    omega

/-! ## Read after write -/

section ReadAfterWrite

variable {m : ByteMem} {a b n k v : Nat}

/-- Reading `k` of the `n` bytes just written, from the `i`-th on. -/
theorem load_store_inside (i : Nat) (h : i + k ≤ n) :
    load k (store n m a v) (a + i) = v / 256 ^ i % 256 ^ k := by
  induction k generalizing i with
  | zero => simp [load, Nat.mod_one]
  | succ k ih =>
    have hbyte : (store n m a v (a + i)).toNat = v / 256 ^ i % 256 := by
      rw [store, if_pos (by omega), Nat.add_sub_cancel_left]
      simp
    have htail : load k (store n m a v) (a + i + 1) = v / 256 ^ (i + 1) % 256 ^ k :=
      ih (i + 1) (by omega)
    rw [load, hbyte, htail, pow_succ 256 i, ← Nat.div_div_eq_div_mul, pow_succ 256 k,
      Nat.mul_comm (256 ^ k) 256, Nat.mod_mul]

@[simp] theorem load_store_self (n : Nat) (m : ByteMem) (a v : Nat) :
    load n (store n m a v) a = v % 256 ^ n := by
  simpa using load_store_inside (m := m) (a := a) (v := v) (k := n) (n := n) 0 (by omega)

/-- Reading inside a zero-filled range gives zero. -/
theorem load_fill_zero (h : a ≤ b ∧ b + k ≤ a + n) : load k (fill m a 0 n) b = 0 := by
  induction k generalizing b with
  | zero => rfl
  | succ k ih =>
    have hbyte : fill m a 0 n b = 0 := fill_of_mem (by omega)
    have htail : load k (fill m a 0 n) (b + 1) = 0 := ih (by omega)
    simp [load, hbyte, htail]

theorem storeWords_of_not_mem {ws : List Nat} (h : b < a ∨ a + 8 * ws.length ≤ b) :
    storeWords m a ws b = m b := by
  induction ws generalizing m a with
  | nil => rfl
  | cons w ws ih =>
    rw [List.length_cons] at h
    rw [storeWords, ih (by omega), store_of_not_mem (by omega)]

theorem load_storeWords_of_disjoint {ws : List Nat} (h : Disjoint₂ a (8 * ws.length) b k) :
    load k (storeWords m a ws) b = load k m b :=
  load_congr fun _ _ _ => storeWords_of_not_mem (by omega)

/-- The `i`-th word just written. -/
theorem load_storeWords {ws : List Nat} {w : Nat} (i : Nat) (h : ws[i]? = some w) :
    load 8 (storeWords m a ws) (a + 8 * i) = w % 256 ^ 8 := by
  induction ws generalizing m a i with
  | nil => simp at h
  | cons w' ws ih =>
    cases i with
    | zero =>
      obtain rfl : w' = w := by simpa using h
      rw [storeWords, load_storeWords_of_disjoint (by omega), Nat.mul_zero, Nat.add_zero,
        load_store_self]
    | succ i =>
      rw [storeWords, show a + 8 * (i + 1) = a + 8 + 8 * i by omega]
      exact ih i (by simpa using h)

end ReadAfterWrite

end ByteMem

end Vespera.Lib
