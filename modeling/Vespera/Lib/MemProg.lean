import Vespera.Lib.ByteMem

/-! # Programs that access a memory

A `MemProg α` is a computation of an `α` that reads and writes a byte memory with 64-bit
addresses: what it computes and where it accesses the memory next may depend on the bytes
it has read so far. Run from a memory, it has a `result`, leaves a `memory`, and has
`touched` some address ranges on the way.

Main results:

* `run_agree`: two memories that agree where the program accesses the first one give the
  same result, and agree there afterwards.
-/

namespace Vespera.Lib

/-- Addresses are taken modulo this. -/
abbrev addressSpace : Nat := 2 ^ 64

/-- A range of `r.2` bytes from the address `r.1` on holds the address `b`. -/
def InRange (r : Nat × Nat) (b : Nat) : Prop := ∃ i < r.2, b = (r.1 + i) % addressSpace

/-- Two ranges have an address in common. -/
def Meets (r r' : Nat × Nat) : Prop := ∃ b, InRange r b ∧ InRange r' b

/-- A range is a part of another one. -/
def Within (r r' : Nat × Nat) : Prop := r'.1 ≤ r.1 ∧ r.1 + r.2 ≤ r'.1 + r'.2

/-- The bytes of a range. -/
def readBytes (m : ByteMem) (a n : Nat) : List UInt8 :=
  (List.range n).map fun i => m ((a + i) % addressSpace)

/-- Write bytes from an address on. -/
def writeBytes (m : ByteMem) (a : Nat) (bs : List UInt8) : ByteMem := fun b =>
  let i := (b + addressSpace - a % addressSpace) % addressSpace
  if b < addressSpace ∧ i < bs.length then bs.getD i 0 else m b

/-- A little-endian number. -/
def ofBytes : List UInt8 → Nat
  | [] => 0
  | b :: bs => b.toNat + 256 * ofBytes bs

/-- The `n` little-endian bytes of a number. -/
def toBytes : Nat → Nat → List UInt8
  | 0, _ => []
  | n + 1, v => UInt8.ofNat v :: toBytes n (v / 256)

@[simp] theorem toBytes_length {n v : Nat} : (toBytes n v).length = n := by
  induction n generalizing v with
  | zero => rfl
  | succ n ih => simp [toBytes, ih]

@[simp] theorem readBytes_length {m : ByteMem} {a n : Nat} : (readBytes m a n).length = n := by
  simp [readBytes]

/-- A program over a byte memory. -/
inductive MemProg (α : Type) where
  | ret (x : α)
  | load (a n : Nat) (k : List UInt8 → MemProg α)
  | store (a : Nat) (bs : List UInt8) (k : MemProg α)

namespace MemProg

variable {α β : Type}

/-- Go on with the result of a program. -/
def bind : MemProg α → (α → MemProg β) → MemProg β
  | ret x, f => f x
  | load a n k, f => load a n fun bs => (k bs).bind f
  | store a bs k, f => store a bs (k.bind f)

instance : Monad MemProg where
  pure := ret
  bind := bind

/-- Read `n` bytes. -/
def loadBytes (a n : Nat) : MemProg (List UInt8) := load a n ret

/-- Write bytes. -/
def storeBytes (a : Nat) (bs : List UInt8) : MemProg Unit := store a bs (ret ())

/-- What a program computes. -/
def result : MemProg α → ByteMem → α
  | ret x, _ => x
  | load a n k, m => (k (readBytes m a n)).result m
  | store a bs k, m => k.result (writeBytes m a bs)

/-- The memory a program leaves. -/
def memory : MemProg α → ByteMem → ByteMem
  | ret _, m => m
  | load a n k, m => (k (readBytes m a n)).memory m
  | store a bs k, m => k.memory (writeBytes m a bs)

/-- The ranges a program accesses, in order. -/
def touched : MemProg α → ByteMem → List (Nat × Nat)
  | ret _, _ => []
  | load a n k, m => (a, n) :: (k (readBytes m a n)).touched m
  | store a bs k, m => (a, bs.length) :: k.touched (writeBytes m a bs)

/-! ## Computation rules -/

section Rules

variable (p : MemProg α) (f : α → MemProg β) (m : ByteMem)

@[simp] theorem result_pure {x : α} : (pure x : MemProg α).result m = x := rfl

@[simp] theorem memory_pure {x : α} : (pure x : MemProg α).memory m = m := rfl

@[simp] theorem touched_pure {x : α} : (pure x : MemProg α).touched m = [] := rfl

@[simp] theorem result_bind : (p >>= f).result m = (f (p.result m)).result (p.memory m) := by
  show (p.bind f).result m = _
  induction p generalizing m with
  | ret x => rfl
  | load a n k ih => exact ih _ m
  | store a bs k ih => exact ih _

@[simp] theorem memory_bind : (p >>= f).memory m = (f (p.result m)).memory (p.memory m) := by
  show (p.bind f).memory m = _
  induction p generalizing m with
  | ret x => rfl
  | load a n k ih => exact ih _ m
  | store a bs k ih => exact ih _

@[simp] theorem touched_bind :
    (p >>= f).touched m = p.touched m ++ (f (p.result m)).touched (p.memory m) := by
  show (p.bind f).touched m = _
  induction p generalizing m with
  | ret x => rfl
  | load a n k ih => exact congrArg _ (ih _ m)
  | store a bs k ih => exact congrArg _ (ih _)

@[simp] theorem result_loadBytes {a n : Nat} : (loadBytes a n).result m = readBytes m a n := rfl

@[simp] theorem memory_loadBytes {a n : Nat} : (loadBytes a n).memory m = m := rfl

@[simp] theorem touched_loadBytes {a n : Nat} : (loadBytes a n).touched m = [(a, n)] := rfl

@[simp] theorem touched_storeBytes {a : Nat} {bs : List UInt8} :
    (storeBytes a bs).touched m = [(a, bs.length)] := rfl

end Rules

/-! ## What a run depends on and what it changes -/

theorem readBytes_congr {m m' : ByteMem} {a n : Nat} (h : ∀ b, InRange (a, n) b → m b = m' b) :
    readBytes m a n = readBytes m' a n :=
  List.map_congr_left fun i hi => h _ ⟨i, List.mem_range.mp hi, rfl⟩

theorem writeBytes_congr {m m' : ByteMem} {a : Nat} {bs : List UInt8} {b : Nat} (h : m b = m' b) :
    writeBytes m a bs b = writeBytes m' a bs b := by
  simp only [writeBytes, h]

/-- A program that accesses the first memory only inside `U` does the same on every memory
that agrees with it on `U`, and leaves memories that agree on `U`. -/
theorem run_agree (p : MemProg α) {U : Nat → Prop} {m m' : ByteMem}
    (htouched : ∀ r ∈ p.touched m, ∀ b, InRange r b → U b) (hm : ∀ b, U b → m b = m' b) :
    p.result m = p.result m' ∧ ∀ b, U b → p.memory m b = p.memory m' b := by
  induction p generalizing m m' with
  | ret x => exact ⟨rfl, hm⟩
  | load a n k ih =>
    have hread : readBytes m a n = readBytes m' a n :=
      readBytes_congr fun b hb => hm b (htouched _ List.mem_cons_self b hb)
    simp only [result, memory, ← hread]
    exact ih _ (fun r hr => htouched r (List.mem_cons_of_mem _ hr)) hm
  | store a bs k ih =>
    exact ih (fun r hr => htouched r (List.mem_cons_of_mem _ hr))
      fun b hb => writeBytes_congr (hm b hb)

end MemProg

theorem Within.trans {r r' r'' : Nat × Nat} (h : Within r r') (h' : Within r' r'') : Within r r'' :=
  ⟨h'.1.trans h.1, h.2.trans h'.2⟩

theorem InRange.of_within {r r' : Nat × Nat} {b : Nat} (h : Within r r') (hb : InRange r b) :
    InRange r' b := by
  obtain ⟨i, hi, rfl⟩ := hb
  obtain ⟨hlow, hhigh⟩ := h
  exact ⟨r.1 + i - r'.1, by omega, by congr 1; omega⟩

end Vespera.Lib
