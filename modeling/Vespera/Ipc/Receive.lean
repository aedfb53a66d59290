import Vespera.Ipc.Frames

/-! # Reading one frame

What each step of a `recvmsg` does when the channel begins with the bytes it expects. The four
lemmas follow the four reads of the source: the two words of the header, the rights, the length
of the payload, and one vector of the payload. `fill` says how much of the payload a vector
takes and which vectors are left.
-/

namespace Vespera.Ipc

open Function Lib

/-- The bytes that a vector takes of a payload of `remaining` bytes, and the vectors after it: a
null pointer that is to take any ends the loop, and so does the end of the payload. -/
def fill (v : IoVec) (iov : List IoVec) (remaining : Nat) : Nat × List IoVec :=
  if remaining = 0 then (0, [])
  else if v.null = true ∧ 0 < v.len then (0, [])
  else (min remaining v.len, iov)

namespace Sockets

variable {ρ C U : Type} [DecidableEq C] [DecidableEq U] (hasAcquire : ρ → Bool)
  {st : Sockets ρ C U} {u : U} {d : C × Bool} {c c' : Channel} {p p' : Phase (C × Bool)} {rest : List UInt8}

/-- The state with another channel in the direction `d` and the unit `u` elsewhere in its call. -/
def put (st : Sockets ρ C U) (d : C × Bool) (c : Channel) (u : U) (p : Phase (C × Bool)) :
    Sockets ρ C U :=
  (st.setChannel d c).setPhase u p

@[simp] theorem put_phase : (st.put d c u p).phase u = p := setPhase_self

@[simp] theorem put_channel : (st.put d c u p).channel d = c := setChannel_self

@[simp] theorem put_setPhase : (st.put d c u p).setPhase u p' = st.put d c u p' := by
  simp [put, setPhase]

@[simp] theorem put_put : ((st.put d c u p).setChannel d c').setPhase u p' = st.put d c' u p' := by
  simp [put, setChannel, setPhase]

omit [DecidableEq U] in
theorem setChannel_channel : st.setChannel d (st.channel d) = st := by
  unfold setChannel
  rw [update_eq_self]

theorem put_self (hp : st.phase u = p) : st.put d (st.channel d) u p = st := by
  rw [put, setChannel_channel, setPhase, ← hp, update_eq_self]

variable (st u d) (call : RecvCall)

theorem advance_recvHeader (hwf : c.WF) {f : Frame} (hcontents : c.contents = f.bytes ++ rest) :
    ∃ c' : Channel, c'.WF ∧ c'.contents = f.afterHeader ++ rest ∧
      (st.put d c u (.recvHeader d call)).advance hasAcquire u = st.put d c' u
        (if 0 < f.rights.length then .recvRights d call f.rights.length
          else .recvLength d call f.rights) := by
  have hsplit : c.contents =
      (toBytes 4 sendmsgFrameMagic ++ toBytes 4 f.rights.length) ++ (f.afterHeader ++ rest) := by
    rw [hcontents, Frame.bytes, List.append_assoc]
  obtain ⟨c', hrecv, hcwf, -, hafter⟩ := Channel.recvBytes_exact hwf hsplit (by simp [toBytes])
  have hlen : (toBytes 4 sendmsgFrameMagic ++ toBytes 4 f.rights.length).length = 8 := by simp
  rw [hlen] at hrecv
  refine ⟨c', hcwf, hafter, ?_⟩
  unfold advance
  simp only [put_phase, put_channel, hrecv, Frame.magic_word, Frame.count_word, ne_eq,
    not_true_eq_false, or_self, if_false, gt_iff_lt, Nat.not_lt.mpr f.few, put_put]
  by_cases hzero : 0 < f.rights.length
  · rw [if_pos hzero, if_pos hzero]
  · have hnil : f.rights = [] := List.length_eq_zero_iff.mp (by omega)
    rw [if_neg hzero, if_neg hzero, hnil]

theorem advance_recvRights {rs : List FrameRight} (hpos : 0 < rs.length) (hwf : c.WF)
    (hcontents : c.contents = rs.flatMap FrameRight.bytes ++ rest) :
    ∃ c' : Channel, c'.WF ∧ c'.contents = rest ∧
      (st.put d c u (.recvRights d call rs.length)).advance hasAcquire u =
        st.put d c' u (.recvLength d call rs) := by
  obtain ⟨c', hrecv, hcwf, -, hafter⟩ := Channel.recvBytes_exact hwf hcontents (by
    rw [← List.length_pos_iff, flatMap_bytes_length]
    omega)
  rw [flatMap_bytes_length] at hrecv
  refine ⟨c', hcwf, hafter, ?_⟩
  unfold advance
  simp only [put_phase, put_channel, hrecv, ne_eq, not_true_eq_false, if_false,
    rightsOfBytes_flatMap, put_put]

theorem advance_recvLength (rights : List FrameRight) {n : Nat} (hn : n < 2 ^ 32) (hwf : c.WF)
    (hcontents : c.contents = toBytes 4 n ++ rest) :
    ∃ c' : Channel, c'.WF ∧ c'.contents = rest ∧
      (st.put d c u (.recvLength d call rights)).advance hasAcquire u =
        st.put d c' u (.scatter d call rights call.msg.iov n []) := by
  obtain ⟨c', hrecv, hcwf, -, hafter⟩ := Channel.recvBytes_exact hwf hcontents (by simp [toBytes])
  rw [toBytes_length] at hrecv
  have hword : ofBytes (toBytes 4 n) = n := ofBytes_toBytes_of_lt hn
  refine ⟨c', hcwf, hafter, ?_⟩
  unfold advance
  simp only [put_phase, put_channel, hrecv, ne_eq, not_true_eq_false, if_false, hword, put_put]

theorem advance_scatter (rights : List FrameRight) (v : IoVec) (iov : List IoVec)
    (data : List UInt8) {part : List UInt8} (hwf : c.WF) (hcontents : c.contents = part ++ rest) :
    ∃ c' : Channel, c'.WF ∧ c'.contents = part.drop (fill v iov part.length).1 ++ rest ∧
      (st.put d c u (.scatter d call rights (v :: iov) part.length data)).advance hasAcquire u =
        st.put d c' u (.scatter d call rights (fill v iov part.length).2
          (part.length - (fill v iov part.length).1)
          (data ++ part.take (fill v iov part.length).1)) := by
  unfold advance
  simp only [put_phase, put_channel, put_setPhase, put_put]
  by_cases hzero : part.length = 0
  · refine ⟨c, hwf, ?_, ?_⟩
    all_goals simp [fill, hzero, hcontents]
  by_cases hnull : v.null ∧ 0 < v.len
  · refine ⟨c, hwf, ?_, ?_⟩
    · simp [fill, hzero, hnull, hcontents]
    · simp [fill, hzero, hnull, Nat.pos_of_ne_zero hzero]
  have hfill : fill v iov part.length = (min part.length v.len, iov) := by
    unfold fill
    rw [if_neg hzero, if_neg hnull]
  rw [hfill]
  by_cases hwant : min part.length v.len = 0
  · refine ⟨c, hwf, ?_, ?_⟩
    · simp [hwant, hcontents]
    · simp [hzero, hwant]
  -- the vector is filled
  have hnotNull : ¬ (v.null ∨ min part.length v.len = 0) := by
    rintro (hv | hv)
    · exact hnull ⟨hv, by omega⟩
    · exact hwant hv
  have hsplit : c.contents =
      part.take (min part.length v.len) ++ (part.drop (min part.length v.len) ++ rest) := by
    rw [← List.append_assoc, List.take_append_drop, hcontents]
  have htake : (part.take (min part.length v.len)).length = min part.length v.len := by
    rw [List.length_take]
    omega
  obtain ⟨c', hrecv, hcwf, -, hafter⟩ := Channel.recvBytes_exact hwf hsplit (by
    rw [← List.length_pos_iff]
    omega)
  rw [htake] at hrecv
  refine ⟨c', hcwf, hafter, ?_⟩
  rw [if_neg hzero, if_neg hnotNull, hrecv]
  simp only [Nat.lt_irrefl, if_false]

end Sockets

end Vespera.Ipc
