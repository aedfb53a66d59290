import Vespera.Ipc.Channel

/-! # Event counters, timers and signals as files

`Eventfd::read` and `Eventfd::write` of `kernel/ipc/eventfd.cpp`, `Timerfd::read` of
`kernel/time/timerfd.cpp` and `Signalfd::read` of `kernel/signals/signalfd.cpp`. As for
channels, each function is one pass of the source's loop. They store to the caller's buffer
through the bare pointer, so `touched` names the buffer itself.
-/

namespace Vespera.Ipc

open Klib Lib MemProg

abbrev u64Max : Nat := 2 ^ 64 - 1

/-- `class Eventfd`. -/
structure Eventfd where
  counter : Nat
  semaphoreMode : Bool
  nonblock : Bool
deriving Repr, DecidableEq

/-- `class Timerfd`, without what arms it. -/
structure Timerfd where
  expirations : Nat
  nonblock : Bool
deriving Repr, DecidableEq

/-- `class Signalfd`; `owner` is the realm whose pending signals it reads. -/
structure Signalfd where
  owner : Nat
  mask : Nat
  nonblock : Bool
deriving Repr, DecidableEq

/-- `sizeof(signalfd_siginfo)`. -/
def siginfoSize : Nat := 128

/-- The passes below store `n` bytes from the start of the caller's buffer on. -/
def storeAndMove {σ : Type} (out : Nat) (bs : List UInt8) (s : σ) : MemProg (Pass σ) := do
  storeBytes out bs
  pure (.moved s bs.length)

/-- One pass of `Eventfd::read`. -/
def Eventfd.read (e : Eventfd) (out count : Nat) : MemProg (Pass Eventfd) :=
  if count < 8 then pure (.stay Error.inval.toErrno)
  else if e.counter = 0 then pure .wait
  else
    let val := if e.semaphoreMode then 1 else e.counter
    storeAndMove out (toBytes 8 val) { e with counter := e.counter - val }

/-- `Eventfd::write` once the value is read. -/
def Eventfd.add (e : Eventfd) (val : Nat) : Pass Eventfd :=
  if val = u64Max then .stay Error.inval.toErrno
  else if e.counter ≥ u64Max - val then .wait
  else .moved { e with counter := e.counter + val } 8

/-- One pass of `Eventfd::write`. -/
def Eventfd.write (e : Eventfd) (data count : Nat) : MemProg (Pass Eventfd) :=
  if count < 8 then pure (.stay Error.inval.toErrno)
  else do
    let bs ← loadBytes data 8
    pure (e.add (ofBytes bs))

/-- One pass of `Timerfd::read`. -/
def Timerfd.read (t : Timerfd) (out count : Nat) : MemProg (Pass Timerfd) :=
  if count < 8 then pure (.stay Error.inval.toErrno)
  else if t.expirations = 0 then pure .wait
  else storeAndMove out (toBytes 8 t.expirations) { t with expirations := 0 }

/-- `__builtin_ctzll` of a number that is not 0. -/
def ctz (v : Nat) : Nat := ((List.range 64).find? v.testBit).getD 64

/-- One pass of `Signalfd::read`; the state is the owner's `signals_pending`. -/
def Signalfd.read (s : Signalfd) (pending out count : Nat) : MemProg (Pass Nat) :=
  if count < siginfoSize then pure (.stay Error.inval.toErrno)
  else
    let ready := pending &&& s.mask
    if ready = 0 then pure .wait
    else
      let signum := ctz ready
      storeAndMove out (toBytes 4 signum ++ List.replicate (siginfoSize - 4) 0)
        (pending &&& (u64Max - 2 ^ signum))

/-! ## What they touch and what they come to -/

/-- A pass that refuses short buffers, waits, or stores `size` bytes: the three readers. -/
structure Reads {σ : Type} (p : MemProg (Pass σ)) (size : Nat) (empty : Prop) (out count : Nat) :
    Prop where
  touched : ∀ m, ∀ r ∈ p.touched m, Within r (out, count)
  short : count < size → p = pure (.stay Error.inval.toErrno)
  wait : ¬ count < size → empty → p = pure .wait
  moved : ¬ count < size → ¬ empty → ∀ m, ∃ s n, p.result m = .moved s n

/-- A reader that is written with the two tests in front meets `Reads`. -/
theorem reads_of_tests {σ : Type} {size : Nat} {empty : Prop} [Decidable empty] {out count : Nat}
    {bs : List UInt8} {s : σ} (hbs : bs.length = size) :
    Reads (if count < size then pure (.stay Error.inval.toErrno)
      else if empty then pure .wait else storeAndMove out bs s) size empty out count where
  touched := by
    intro m r hr
    split_ifs at hr with hshort hempty
    · simp at hr
    · simp at hr
    simp only [storeAndMove, touched_bind, touched_storeBytes,
      touched_pure, List.append_nil, List.mem_cons, List.not_mem_nil, or_false] at hr
    subst hr
    exact ⟨Nat.le_refl _, by simp only; omega⟩
  short h := if_pos h
  wait h h' := by rw [if_neg h, if_pos h']
  moved h h' m := by
    rw [if_neg h, if_neg h']
    exact ⟨_, _, rfl⟩

theorem Eventfd.read_reads (e : Eventfd) (out count : Nat) :
    Reads (e.read out count) 8 (e.counter = 0) out count :=
  reads_of_tests toBytes_length

theorem Timerfd.read_reads (t : Timerfd) (out count : Nat) :
    Reads (t.read out count) 8 (t.expirations = 0) out count :=
  reads_of_tests toBytes_length

theorem Signalfd.read_reads (s : Signalfd) (pending out count : Nat) :
    Reads (s.read pending out count) siginfoSize (pending &&& s.mask = 0) out count :=
  reads_of_tests (by simp [siginfoSize])

theorem Eventfd.write_touched {e : Eventfd} {data count : Nat} {m : ByteMem} :
    ∀ r ∈ (e.write data count).touched m, Within r (data, count) := by
  intro r hr
  unfold Eventfd.write at hr
  split_ifs at hr with hshort
  · simp at hr
  simp only [touched_bind, touched_loadBytes, touched_pure,
    List.append_nil, List.mem_cons, List.not_mem_nil, or_false] at hr
  subst hr
  exact ⟨Nat.le_refl _, by simp only; omega⟩

end Vespera.Ipc
