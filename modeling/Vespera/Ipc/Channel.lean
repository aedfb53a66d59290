import Vespera.Klib.Result
import Vespera.Lib.MemProg

/-! # Channels

`Channel::send` and `Channel::recv` of `kernel/ipc/channel.cpp`: a ring buffer between the
readers and the writers of a pipe, of a FIFO or of one direction of a socket. Both functions
are loops that wait and look again; what they do between two waits is one `Pass`, and whether
the caller then waits is the caller's `blocking` argument.

The number of readers and writers is what the open ends of the channel keep; the waiting
units are in the scheduler's wait queues.
-/

namespace Vespera.Ipc

open Klib List Lib MemProg

/-- What one pass of a loop that may wait comes to: it returns `r` with nothing changed, it
finds nothing to do yet, or it has moved `n` bytes. -/
inductive Pass (σ : Type) where
  | stay (r : Int)
  | wait
  | moved (s : σ) (n : Nat)

/-- The fields of `Channel` that the transfers use. -/
structure Channel where
  buf : Nat → UInt8
  capacity : Nat
  head : Nat
  tail : Nat
  used : Nat
  readerCount : Nat
  writerCount : Nat
  writerGeneration : Nat

namespace Channel

variable (c : Channel)

/-- `memcpy(buf_ + at, bs, …)`. -/
def put (pos : Nat) (bs : List UInt8) : Channel :=
  { c with buf := fun i => if pos ≤ i ∧ i < pos + bs.length then bs.getD (i - pos) 0 else c.buf i }

/-- The `n` bytes of the buffer from `pos` on. -/
def slice (pos n : Nat) : List UInt8 := (List.range n).map fun i => c.buf (pos + i)

@[simp] theorem slice_length {c : Channel} {pos n : Nat} : (c.slice pos n).length = n := by
  simp [slice]

/-- The copy of `n` bytes into the buffer from `head_` on, in two parts if they wrap. -/
def copyIn (data n : Nat) : MemProg Channel := do
  let first := min n (c.capacity - c.head)
  let front ← loadBytes data first
  if first < n then do
    let rest ← loadBytes (data + first) (n - first)
    pure ((c.put c.head front).put 0 rest)
  else pure (c.put c.head front)

/-- The copy of `n` bytes out of the buffer from `tail_` on, in two parts if they wrap. -/
def copyOut (out n : Nat) : MemProg Unit := do
  let first := min n (c.capacity - c.tail)
  storeBytes out (c.slice c.tail first)
  if first < n then storeBytes (out + first) (c.slice 0 (n - first)) else pure ()

/-- One pass of `Channel::send`. -/
def send (data len : Nat) : MemProg (Pass Channel) :=
  if data = 0 ∨ len = 0 then pure (.stay 0)
  else if c.readerCount = 0 then pure (.stay Error.pipe.toErrno)
  else if c.capacity - c.used = 0 then pure .wait
  else do
    let toWrite := min len (c.capacity - c.used)
    let c ← c.copyIn data toWrite
    pure (.moved { c with head := (c.head + toWrite) % c.capacity, used := c.used + toWrite }
      toWrite)

/-- One pass of `Channel::recv`. -/
def recv (out len : Nat) : MemProg (Pass Channel) :=
  if out = 0 ∨ len = 0 then pure (.stay 0)
  else if c.used = 0 then
    -- without a writer the end of the data is reached, if there ever was one
    if c.writerCount = 0 ∧ c.writerGeneration > 0 then pure (.stay 0) else pure .wait
  else do
    let toRead := min len c.used
    c.copyOut out toRead
    pure (.moved { c with tail := (c.tail + toRead) % c.capacity, used := c.used - toRead } toRead)

/-! ## What the transfers touch -/

theorem copyIn_touched (data n : Nat) (m : ByteMem) :
    ∀ r ∈ (c.copyIn data n).touched m, Within r (data, n) := by
  intro r hr
  by_cases hwrap : min n (c.capacity - c.head) < n
  · -- two parts, the second one behind the first
    simp only [copyIn, hwrap, if_true, touched_bind, touched_loadBytes,
      touched_pure, append_nil, cons_append, nil_append, mem_cons,
      not_mem_nil, or_false] at hr
    rcases hr with rfl | rfl
    · exact ⟨Nat.le_refl _, by simp only; omega⟩
    · exact ⟨by simp only; omega, by simp only; omega⟩
  · simp only [copyIn, hwrap, if_false, touched_bind, touched_loadBytes,
      touched_pure, append_nil, mem_cons, not_mem_nil, or_false] at hr
    subst hr
    exact ⟨Nat.le_refl _, by simp only; omega⟩

theorem copyOut_touched (out n : Nat) (m : ByteMem) :
    ∀ r ∈ (c.copyOut out n).touched m, Within r (out, n) := by
  intro r hr
  by_cases hwrap : min n (c.capacity - c.tail) < n
  · -- two parts, the second one behind the first
    simp only [copyOut, hwrap, if_true, touched_bind, touched_storeBytes,
      slice_length, cons_append, nil_append, mem_cons, not_mem_nil,
      or_false] at hr
    rcases hr with rfl | rfl
    · exact ⟨Nat.le_refl _, by simp only; omega⟩
    · exact ⟨by simp only; omega, by simp only; omega⟩
  simp only [copyOut, hwrap, if_false, touched_bind, touched_storeBytes,
    touched_pure, slice_length, append_nil, mem_cons, not_mem_nil,
    or_false] at hr
  subst hr
  exact ⟨Nat.le_refl _, by simp only; omega⟩

/-- `send` accesses the caller's buffer only. -/
theorem send_touched (data len : Nat) (m : ByteMem) :
    ∀ r ∈ (c.send data len).touched m, Within r (data, len) := by
  intro r hr
  unfold send at hr
  split_ifs at hr
  · simp at hr
  · simp at hr
  · simp at hr
  · simp only [touched_bind, touched_pure, append_nil] at hr
    exact (copyIn_touched c data _ m r hr).trans ⟨Nat.le_refl _, by simp only; omega⟩

/-- `recv` accesses the caller's buffer only. -/
theorem recv_touched (out len : Nat) (m : ByteMem) :
    ∀ r ∈ (c.recv out len).touched m, Within r (out, len) := by
  intro r hr
  unfold recv at hr
  split_ifs at hr
  · simp at hr
  · simp at hr
  · simp at hr
  · simp only [touched_bind, touched_pure, append_nil] at hr
    exact (copyOut_touched c out _ m r hr).trans ⟨Nat.le_refl _, by simp only; omega⟩

/-- The channel has nothing for a reader, but may have later. -/
def Starved : Prop := c.used = 0 ∧ ¬ (c.writerCount = 0 ∧ c.writerGeneration > 0)

instance : Decidable c.Starved := inferInstanceAs (Decidable (_ ∧ _))

/-- `recv` waits on a starved channel and on no other, and it never fails. -/
theorem recv_cases {out len : Nat} (hout : out ≠ 0) (hlen : len ≠ 0) (m : ByteMem) :
    (c.Starved ∧ c.recv out len = pure .wait) ∨ (¬ c.Starved ∧ c.recv out len = pure (.stay 0)) ∨
    (¬ c.Starved ∧ ∃ c' n, (c.recv out len).result m = .moved c' n) := by
  by_cases hempty : c.used = 0
  · by_cases heof : c.writerCount = 0 ∧ c.writerGeneration > 0
    · exact .inr (.inl ⟨fun h => h.2 heof, by simp [recv, hout, hlen, hempty, heof]⟩)
    · exact .inl ⟨⟨hempty, heof⟩, by simp [recv, hout, hlen, hempty, heof]⟩
  refine .inr (.inr ⟨fun h => hempty h.1, ?_⟩)
  simp only [recv, hout, hlen, hempty, or_self, if_false, result_bind, result_pure]
  exact ⟨_, _, rfl⟩

end Channel

end Vespera.Ipc
