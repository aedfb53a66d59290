import Mathlib.Data.List.GetD
import Vespera.Ipc.Channel
import Vespera.Lib.Ring
import Vespera.Lib.Run

/-! # A channel as a queue of bytes

What `Channel::send` and `Channel::recv` move, as lists: `sendBytes` and `recvBytes` are the two
functions on bytes that the kernel already has in a buffer of its own, and `send_result` and
`recv_result` say that the transfers between a channel and user memory do the same.

`contents` is the queue a channel stands for. On a well-formed channel a send appends a prefix
of its bytes and a receive takes a prefix of the queue (`sendBytes_cases`, `recvBytes_cases`), and
so whole runs keep the order of the bytes (`stream_in_order`).
-/

namespace Vespera.Ipc

open Klib List Lib MemProg

namespace Channel

/-- The copy of `bs` into the buffer from `head_` on, in two parts if they wrap. -/
def putWrapped (c : Channel) (bs : List UInt8) : Channel :=
  let first := min bs.length (c.capacity - c.head)
  if first < bs.length then (c.put c.head (bs.take first)).put 0 (bs.drop first)
  else c.put c.head (bs.take first)

/-- The `n` bytes of the buffer from `tail_` on, in two parts if they wrap. -/
def sliceWrapped (c : Channel) (n : Nat) : List UInt8 :=
  let first := min n (c.capacity - c.tail)
  c.slice c.tail first ++ (if first < n then c.slice 0 (n - first) else [])

/-- One pass of `Channel::send` on these bytes. -/
def sendBytes (c : Channel) (bs : List UInt8) : Pass Channel :=
  if bs = [] then .stay 0
  else if c.readerCount = 0 then .stay Error.pipe.toErrno
  else if c.capacity - c.used = 0 then .wait
  else
    let toWrite := min bs.length (c.capacity - c.used)
    let c := c.putWrapped (bs.take toWrite)
    .moved { c with head := (c.head + toWrite) % c.capacity, used := c.used + toWrite } toWrite

/-- One pass of `Channel::recv` for up to `len` bytes. -/
def recvBytes (c : Channel) (len : Nat) : Pass (Channel × List UInt8) :=
  if len = 0 then .stay 0
  else if c.used = 0 then
    if c.writerCount = 0 ∧ c.writerGeneration > 0 then .stay 0 else .wait
  else
    let toRead := min len c.used
    .moved ({ c with tail := (c.tail + toRead) % c.capacity, used := c.used - toRead },
      c.sliceWrapped toRead) toRead

/-! ## The transfers with user memory -/

variable {m : ByteMem} {c : Channel}

theorem readBytes_split {a : Nat} {k n : Nat} (h : k ≤ n) :
    readBytes m a n = readBytes m a k ++ readBytes m (a + k) (n - k) := by
  obtain ⟨j, rfl⟩ := Nat.exists_eq_add_of_le h
  unfold readBytes
  rw [range_add, map_append, map_map, Nat.add_sub_cancel_left]
  congr 1
  apply map_congr_left
  intro i _
  simp only [Function.comp_apply, Nat.add_assoc]

theorem readBytes_take {a : Nat} {k n : Nat} (h : k ≤ n) :
    (readBytes m a n).take k = readBytes m a k := by
  rw [readBytes_split h, take_left' readBytes_length]

theorem readBytes_drop {a : Nat} {k n : Nat} (h : k ≤ n) :
    (readBytes m a n).drop k = readBytes m (a + k) (n - k) := by
  rw [readBytes_split h, drop_left' readBytes_length]

theorem copyIn_result {data n : Nat} :
    (c.copyIn data n).result m = c.putWrapped (readBytes m data n) := by
  have hfirst : min n (c.capacity - c.head) ≤ n := Nat.min_le_left _ _
  unfold copyIn putWrapped
  simp only [readBytes_length, readBytes_take hfirst, readBytes_drop hfirst,
    result_bind, result_loadBytes, memory_loadBytes]
  split
  · simp
  · simp

/-- `send` moves the bytes that the caller's buffer holds. -/
theorem send_result {data : Nat} (hdata : data ≠ 0) {len : Nat} :
    (c.send data len).result m = c.sendBytes (readBytes m data len) := by
  unfold send sendBytes
  have hnil : readBytes m data len = [] ↔ len = 0 := by
    rw [← length_eq_zero_iff, readBytes_length]
  simp only [hdata, false_or, hnil, readBytes_length]
  split
  · rfl
  split
  · rfl
  split
  · rfl
  have hle : min len (c.capacity - c.used) ≤ len := Nat.min_le_left _ _
  simp only [result_bind, result_pure, copyIn_result, readBytes_take hle]

/-- `recv` writes the bytes that it takes from the channel into the caller's buffer. -/
theorem recv_result {out : Nat} (hout : out ≠ 0) {len : Nat} : (c.recv out len).result m =
      match c.recvBytes len with
      | .stay r => .stay r
      | .wait => .wait
      | .moved (c', _) n => .moved c' n := by
  unfold recv recvBytes
  simp only [hout, false_or]
  split
  · rfl
  split
  · split <;> rfl
  · simp

/-- Two copies, the second one behind the first, are one copy. -/
theorem writeBytes_append (m : ByteMem) (a : Nat) {xs ys : List UInt8}
    (h : xs.length + ys.length ≤ addressSpace) :
    writeBytes (writeBytes m a xs) (a + xs.length) ys = writeBytes m a (xs ++ ys) := by
  funext b
  by_cases hb : b < addressSpace
  · -- the distance of `b` from the start of either copy, around the address space
    obtain ⟨i, hi⟩ : ∃ i, i = (b + addressSpace - a % addressSpace) % addressSpace := ⟨_, rfl⟩
    obtain ⟨j, hj⟩ : ∃ j, j = (b + addressSpace - (a + xs.length) % addressSpace) %
      addressSpace := ⟨_, rfl⟩
    have hdist : i < addressSpace ∧ (xs.length ≤ i ∧ j = i - xs.length ∨
        i < xs.length ∧ ys.length ≤ j) := by
      simp only [addressSpace] at *
      omega
    simp only [writeBytes, hb, true_and, ← hi, ← hj, length_append]
    obtain ⟨-, ⟨hle, hji⟩ | ⟨hlt, hle⟩⟩ := hdist
    · by_cases hys : j < ys.length
      · rw [if_pos hys, if_pos (by omega), getD_append_right _ _ _ _ hle, hji]
      · rw [if_neg hys, if_neg (by omega), if_neg (by omega)]
    · rw [if_neg (by omega), if_pos hlt, if_pos (by omega), getD_append _ _ _ _ hlt]
  · simp [writeBytes, hb]

/-- The memory after `recv`: the bytes taken stand in the caller's buffer. -/
theorem recv_memory {out : Nat} (hout : out ≠ 0) {len : Nat} (hlen : len ≤ addressSpace) :
    (c.recv out len).memory m = match c.recvBytes len with
      | .moved (_, bs) _ => writeBytes m out bs
      | _ => m := by
  unfold recv recvBytes
  simp only [hout, false_or]
  split
  · rfl
  split
  · split <;> rfl
  -- the copy, in one part or in two
  simp only [memory_bind, memory_pure]
  unfold copyOut sliceWrapped
  by_cases hwrap : min (min len c.used) (c.capacity - c.tail) < min len c.used
  · simp only [hwrap, if_true, memory_bind]
    have hlens : (c.slice c.tail (min (min len c.used) (c.capacity - c.tail))).length +
        (c.slice 0 (min len c.used - min (min len c.used) (c.capacity - c.tail))).length ≤
          addressSpace := by
      simp only [slice_length]
      omega
    have happend := writeBytes_append m out hlens
    rw [slice_length] at happend
    exact happend
  · simp only [hwrap, if_false, append_nil]
    rfl

/-! ## The queue -/

/-- The positions fit together. -/
structure WF (c : Channel) : Prop where
  used_le : c.used ≤ c.capacity
  tail_lt : 0 < c.capacity → c.tail < c.capacity
  head_eq : 0 < c.capacity → c.head = (c.tail + c.used) % c.capacity

/-- The bytes written and not yet read, oldest first. -/
def contents (c : Channel) : List UInt8 := ringRead c.buf c.capacity c.tail c.used

@[simp] theorem contents_length {c : Channel} : c.contents.length = c.used := by
  simp [contents]

theorem contents_eq_nil : c.contents = [] ↔ c.used = 0 := by
  rw [← length_eq_zero_iff, contents_length]

/-- `c'` has the ends and the size of `c`. -/
structure SameEnds (c c' : Channel) : Prop where
  capacity : c'.capacity = c.capacity
  readerCount : c'.readerCount = c.readerCount
  writerCount : c'.writerCount = c.writerCount
  writerGeneration : c'.writerGeneration = c.writerGeneration

theorem put_buf {pos : Nat} {bs : List UInt8} : (c.put pos bs).buf = splice c.buf pos bs := by
  funext i
  unfold put splice
  by_cases hpos : pos ≤ i
  · by_cases hlast : i < pos + bs.length
    · simp [hpos, hlast, getElem?_eq_getElem (show i - pos < bs.length by omega)]
    · simp [hpos, hlast, getElem?_eq_none (show bs.length ≤ i - pos by omega)]
  · simp [hpos]

theorem splice_nil {buf : Nat → UInt8} {pos : Nat} : splice buf pos [] = buf := by
  funext i
  simp [splice]

theorem putWrapped_buf {bs : List UInt8} :
    (c.putWrapped bs).buf = ringWrite c.buf c.capacity c.head bs := by
  unfold putWrapped ringWrite
  by_cases hwrap : c.capacity - c.head < bs.length
  · have hfirst : min bs.length (c.capacity - c.head) = c.capacity - c.head := by omega
    simp only [hfirst, hwrap, if_true, put_buf]
  · have hfirst : min bs.length (c.capacity - c.head) = bs.length := by omega
    simp only [hfirst, Nat.lt_irrefl, if_false, put_buf, take_length]
    rw [take_of_length_le (by omega), drop_of_length_le (by omega), splice_nil]

theorem putWrapped_fields {bs : List UInt8} :
    (c.putWrapped bs).capacity = c.capacity ∧ (c.putWrapped bs).head = c.head ∧
      (c.putWrapped bs).tail = c.tail ∧ (c.putWrapped bs).used = c.used ∧
      (c.putWrapped bs).readerCount = c.readerCount ∧
      (c.putWrapped bs).writerCount = c.writerCount ∧
      (c.putWrapped bs).writerGeneration = c.writerGeneration := by
  unfold putWrapped
  simp only
  split <;> exact ⟨rfl, rfl, rfl, rfl, rfl, rfl, rfl⟩

theorem sliceWrapped_eq (h : c.WF) {n : Nat} (hn : n ≤ c.used) (hpos : 0 < n) :
    c.sliceWrapped n = ringRead c.buf c.capacity c.tail n := by
  have hcap := h.used_le
  rw [ringRead_eq_slices (h.tail_lt (by omega)) (by omega)]
  unfold sliceWrapped slice
  simp only
  congr 1
  by_cases hwrap : min n (c.capacity - c.tail) < n
  · rw [if_pos hwrap]
  · have hzero : n - min n (c.capacity - c.tail) = 0 := by omega
    rw [if_neg hwrap, hzero]
    rfl

/-- What a pass of `send` comes to. -/
theorem sendBytes_cases (c : Channel) (h : c.WF) (bs : List UInt8) :
    (∃ r, c.sendBytes bs = .stay r ∧
      (bs = [] ∧ r = 0 ∨ bs ≠ [] ∧ c.readerCount = 0 ∧ r = Error.pipe.toErrno)) ∨
    (c.sendBytes bs = .wait ∧ bs ≠ [] ∧ c.used = c.capacity) ∨
    ∃ c' n, c.sendBytes bs = .moved c' n ∧ 0 < n ∧ n = min bs.length (c.capacity - c.used) ∧
      0 < c.readerCount ∧ c'.WF ∧ SameEnds c c' ∧ c'.contents = c.contents ++ bs.take n := by
  have hused := h.used_le
  by_cases hnil : bs = []
  · exact .inl ⟨0, by simp [sendBytes, hnil], .inl ⟨hnil, rfl⟩⟩
  by_cases hreader : c.readerCount = 0
  · exact .inl ⟨_, by simp only [sendBytes, hnil, hreader, if_false, if_true],
      .inr ⟨hnil, hreader, rfl⟩⟩
  by_cases hfull : c.capacity - c.used = 0
  · exact .inr (.inl ⟨by simp only [sendBytes, hnil, hreader, hfull, if_false, if_true], hnil,
      by omega⟩)
  -- there is room, and so the ring has places
  refine .inr (.inr ⟨_, _, by simp only [sendBytes, hnil, hreader, hfull, if_false]; rfl, ?_⟩)
  have hlen : 0 < bs.length := length_pos_of_ne_nil hnil
  have hcap : 0 < c.capacity := by omega
  obtain ⟨hcapacity, hhead, htail, huse, hreaders, hwriters, hgeneration⟩ := putWrapped_fields
  have htake : (bs.take (min bs.length (c.capacity - c.used))).length =
      min bs.length (c.capacity - c.used) := by
    rw [length_take]
    omega
  refine ⟨by omega, rfl, by omega, ?_, ⟨hcapacity, hreaders, hwriters, hgeneration⟩, ?_⟩
  · constructor
    · show _ + _ ≤ _
      rw [huse, hcapacity]
      omega
    · intro _
      rw [show _ = c.capacity from hcapacity]
      exact htail ▸ h.tail_lt hcap
    · intro _
      rw [hcapacity, hhead, htail, huse, h.head_eq hcap, Nat.mod_add_mod, Nat.add_assoc]
  rw [putWrapped_buf, hcapacity, htail, huse, h.head_eq hcap]
  have hroom : c.used + (bs.take (min bs.length (c.capacity - c.used))).length ≤ c.capacity := by
    omega
  have happend := @ringRead_ringWrite _ c.buf c.capacity c.tail c.used _ hcap hroom
  rw [htake] at happend
  exact happend

/-- What a pass of `recv` comes to. -/
theorem recvBytes_cases (h : c.WF) (len : Nat) :
    (c.recvBytes len = .stay 0 ∧ (len = 0 ∨ c.contents = [])) ∨
    (c.recvBytes len = .wait ∧ len ≠ 0 ∧ c.contents = []) ∨
    ∃ c', c.recvBytes len = .moved (c', c.contents.take len) (min len c.used) ∧ len ≠ 0 ∧
      c.contents ≠ [] ∧ c'.WF ∧ SameEnds c c' ∧ c'.contents = c.contents.drop len := by
  have hused := h.used_le
  by_cases hlen : len = 0
  · exact .inl ⟨by simp [recvBytes, hlen], .inl hlen⟩
  by_cases hempty : c.used = 0
  · by_cases heof : c.writerCount = 0 ∧ c.writerGeneration > 0
    · exact .inl ⟨by simp [recvBytes, hlen, hempty, heof], .inr (contents_eq_nil.mpr hempty)⟩
    · exact .inr (.inl ⟨by simp [recvBytes, hlen, hempty, heof], hlen, contents_eq_nil.mpr hempty⟩)
  let c' : Channel :=
    { c with tail := (c.tail + min len c.used) % c.capacity, used := c.used - min len c.used }
  refine .inr (.inr ⟨c', ?_, hlen, mt contents_eq_nil.mp hempty, ?_, ⟨rfl, rfl, rfl, rfl⟩, ?_⟩)
  · have htake : c.contents.take len = ringRead c.buf c.capacity c.tail (min len c.used) := by
      unfold contents
      rcases Nat.le_total len c.used with hle | hle
      · rw [ringRead_take hle, Nat.min_eq_left hle]
      · rw [take_of_length_le (by simpa using hle), Nat.min_eq_right hle]
    simp only [recvBytes, hlen, hempty, if_false]
    rw [htake, sliceWrapped_eq h (Nat.min_le_right _ _) (by omega)]
  · constructor
    · show c.used - _ ≤ c.capacity
      omega
    · intro hcap
      exact Nat.mod_lt _ hcap
    intro hcap
    show c.head = (_ % c.capacity + (c.used - _)) % c.capacity
    rw [h.head_eq hcap, Nat.mod_add_mod]
    congr 1
    omega
  show ringRead c.buf c.capacity ((c.tail + min len c.used) % c.capacity)
    (c.used - min len c.used) = (ringRead _ _ _ _).drop len
  rcases Nat.le_total len c.used with hle | hle
  · rw [ringRead_drop hle, Nat.min_eq_left hle]
  · rw [Nat.min_eq_right hle, Nat.sub_self, drop_of_length_le (by simpa using hle)]
    rfl

/-- A receive of exactly the bytes that the queue begins with. -/
theorem recvBytes_exact (h : c.WF) {xs ys : List UInt8}
    (hcontents : c.contents = xs ++ ys) (hne : xs ≠ []) :
    ∃ c', c.recvBytes xs.length = .moved (c', xs) xs.length ∧ c'.WF ∧ SameEnds c c' ∧
      c'.contents = ys := by
  have hlen : xs.length ≠ 0 := mt length_eq_zero_iff.mp hne
  have hnil : c.contents ≠ [] := by
    rw [hcontents]
    exact fun hnil => hne (append_eq_nil_iff.mp hnil).1
  rcases recvBytes_cases h xs.length with
    ⟨-, hzero | hempty⟩ | ⟨-, -, hempty⟩ | ⟨c', hrecv, -, -, hwf, hends, hrest⟩
  · exact absurd hzero hlen
  · exact absurd hempty hnil
  · exact absurd hempty hnil
  have hused : xs.length ≤ c.used := by
    rw [← contents_length, hcontents, length_append]
    omega
  rw [hcontents, take_left, Nat.min_eq_left hused] at hrecv
  rw [hcontents, drop_left] at hrest
  exact ⟨c', hrecv, hwf, hends, hrest⟩

/-! ## The stream of bytes -/

/-- A pass by any unit, or readers and writers that come and go. -/
inductive Step where
  | send (bs : List UInt8)
  | recv (len : Nat)
  | addReader
  | addWriter
  | removeReader
  | removeWriter

/-- `Channel::create`, with the `buf` that `malloc` returned. -/
def create (buf : Nat → UInt8) (cap : Nat) : Channel := ⟨buf, cap, 0, 0, 0, 0, 0, 0⟩

/-- A step, with the bytes it accepted and the bytes it returned. Only an end that was added is
removed, and no step follows when the last end is, which deletes the channel. -/
def step (c : Channel) : Step → Channel × List UInt8 × List UInt8
  | .send bs =>
    match c.sendBytes bs with
    | .moved c' n => (c', bs.take n, [])
    | _ => (c, [], [])
  | .recv len =>
    match c.recvBytes len with
    | .moved (c', bs) _ => (c', [], bs)
    | _ => (c, [], [])
  | .addReader => ({ c with readerCount := c.readerCount + 1 }, [], [])
  | .addWriter =>
    ({ c with
        writerCount := c.writerCount + 1
        writerGeneration := (c.writerGeneration + 1) % 2 ^ 32 }, [], [])
  | .removeReader => ({ c with readerCount := c.readerCount - 1 }, [], [])
  | .removeWriter => ({ c with writerCount := c.writerCount - 1 }, [], [])

/-- What is accepted goes to the end of the queue, what is returned comes from its front. -/
theorem step_conserves (h : c.WF) (a : Step) :
    (c.step a).1.WF ∧ (c.step a).1.capacity = c.capacity ∧
      c.contents ++ (c.step a).2.1 = (c.step a).2.2 ++ (c.step a).1.contents := by
  cases a with
  | send bs =>
    rcases c.sendBytes_cases h bs with
      ⟨r, hs, -⟩ | ⟨hs, -⟩ | ⟨c', n, hs, -, -, -, hwf, hends, hcontents⟩
    · simp [step, hs, h]
    · simp [step, hs, h]
    · simp [step, hs, hwf, hends.capacity, hcontents]
  | recv len =>
    rcases recvBytes_cases h len with ⟨hs, -⟩ | ⟨hs, -⟩ | ⟨c', hs, -, -, hwf, hends, hcontents⟩
    · simp [step, hs, h]
    · simp [step, hs, h]
    · simp [step, hs, hwf, hends.capacity, hcontents]
  | _ => exact ⟨{ h with }, rfl, append_nil _⟩

theorem run_conserves (h : c.WF) (as : List Step) :
    (final step c as).WF ∧ (final step c as).capacity = c.capacity ∧
      c.contents ++ (answers step c as).flatMap (·.1) =
        (answers step c as).flatMap (·.2) ++ (final step c as).contents := by
  induction as generalizing c with
  | nil => exact ⟨h, rfl, append_nil _⟩
  | cons a as ih =>
    obtain ⟨hwf, hcap, hstep⟩ := step_conserves h a
    obtain ⟨hfinal, hcap', hrest⟩ := ih hwf
    refine ⟨hfinal, hcap'.trans hcap, ?_⟩
    simp only [answers, flatMap_cons, final_cons]
    rw [← append_assoc, hstep, append_assoc, hrest, append_assoc]

/-- In every run the bytes returned and then the at most `cap` bytes in the ring are the bytes
accepted, in order. -/
theorem stream_in_order (buf : Nat → UInt8) (cap : Nat) (as : List Step) :
    (answers step (create buf cap) as).flatMap (·.1) =
        (answers step (create buf cap) as).flatMap (·.2) ++
          (final step (create buf cap) as).contents ∧
      (final step (create buf cap) as).contents.length ≤ cap := by
  have hwf : (create buf cap).WF :=
    ⟨Nat.zero_le _, fun hpos => hpos, fun _ => (Nat.zero_mod cap).symm⟩
  obtain ⟨hfinal, hcap, hbytes⟩ := run_conserves hwf as
  refine ⟨hbytes, ?_⟩
  rw [contents_length]
  exact hfinal.used_le.trans_eq hcap

end Channel

end Vespera.Ipc
