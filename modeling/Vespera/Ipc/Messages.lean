import Vespera.Ipc.Delivery
import Vespera.Ipc.Provenance

/-! # Message boundaries

Calls one after the other: `sendCall` is a `sendmsg` and `recvCall` a `recvmsg` that no other
call interrupts. After some sends, each of which returned a length, the channel holds one frame
for each message (`Ready.send`); a receive then reads the first of them (`Ready.recv`), and
leaves the others at the front of the channel if its vectors hold the whole payload.

* `Sockets.boundaries_kept`: the k-th receive gives the payload of the k-th message, as far as
  its vectors reach, and its handles, provided that all receives before it took their whole
  payload; and a `sendmsg` that fails leaves the channel as it is, provided that its frame fits
  into the channel or the channel is full.
* `Sockets.boundaries_lost`: without these conditions neither is so.
-/

namespace Vespera.Ipc

open Klib Function List Lib Realms

/-- The handle that a control item names. -/
def CmsgItem.hid? : CmsgItem → Option UInt64
  | .right hid => some hid
  | .short | .endless => none

/-- The handles of a message, in order. -/
def OutMsg.hids (msg : OutMsg) : List UInt64 := msg.items.filterMap CmsgItem.hid?

/-- How much of a payload the vectors take: a null pointer that is to take any ends it. -/
def room : List IoVec → Nat
  | [] => 0
  | v :: iov => if v.null = true ∧ 0 < v.len then 0 else v.len + room iov

/-- Rights are collected in the order of the handles. -/
theorem collectRights_eq {ρ : Type} {hasAcquire : ρ → Bool} {realm : UInt64}
    {items : List CmsgItem} {t t' : HandleTable ρ} {acc rs : List FrameRight}
    (h : collectRights hasAcquire realm items t acc = (t', .rights rs)) :
    rs = acc ++ (items.filterMap CmsgItem.hid?).map (FrameRight.mk realm) := by
  induction items generalizing t acc with
  | nil =>
    cases h
    simp
  | cons item items ih =>
    cases item with
    | endless => cases h
    | short => cases h
    | right hid =>
      unfold collectRights at h
      split at h
      · cases h
      split at h
      · cases h
      split at h
      · cases h
      · rw [ih h, append_assoc]
        rfl

namespace Sockets

variable {ρ C U : Type} [DecidableEq C] [DecidableEq U] {hasAcquire : ρ → Bool}

/-! ## Calls without interruption -/

/-- The arguments of a `sendmsg`. -/
structure SendCall (U : Type) where
  u : U
  realm : UInt64
  msg : OutMsg
  blocking : Bool
  mallocOk : Bool

/-- The arguments of a `recvmsg`. -/
structure RecvReq (U : Type) where
  u : U
  realm : UInt64
  msg : InMsg
  blocking : Bool

/-- What the last call of a unit returned, if it has: the number, the payload and the handles. -/
def result (st : Sockets ρ C U) (u : U) : Option (Int × List UInt8 × List UInt64) :=
  match st.phase u with
  | .returned r data hids _ => some (r, data, hids)
  | _ => none

/-- A whole `sendmsg` in the direction `d`. -/
def sendCall (hasAcquire : ρ → Bool) (d : C × Bool) (st : Sockets ρ C U) (c : SendCall U) :
    Sockets ρ C U × Option Int :=
  let st := (st.step hasAcquire (.sendmsg c.u d c.realm c.msg c.blocking c.mallocOk)).1
  let st := st.advance hasAcquire c.u
  (st, (st.result c.u).map fun x => x.1)

/-- A whole `recvmsg` at the end that reads the direction `d`: three reads at the start, one for
each vector, the end of the payload, at most 64 transfers and the return. -/
def recvCall (hasAcquire : ρ → Bool) (d : C × Bool) (st : Sockets ρ C U) (q : RecvReq U) :
    Sockets ρ C U × Option (Int × List UInt8 × List UInt64) :=
  let st := (st.step hasAcquire (.recvmsg q.u (rx d) q.realm q.msg q.blocking)).1
  let st := (fun s => s.advance hasAcquire q.u)^[q.msg.iov.length + 5 + maxRights] st
  (st, st.result q.u)

omit [DecidableEq C] [DecidableEq U] in
theorem rx_rx {d : C × Bool} : rx (rx d) = d := by
  unfold rx
  rw [Bool.not_not]

/-- The call of a unit gets from `st` to `st'` in at most `n` steps. -/
def Reaches (hasAcquire : ρ → Bool) (u : U) (n : Nat) (st st' : Sockets ρ C U) : Prop :=
  ∃ k ≤ n, (fun s => s.advance hasAcquire u)^[k] st = st'

variable {st st' st'' : Sockets ρ C U} {u : U} {d : C × Bool} {c : Channel} {call : RecvCall}
  {rest : List UInt8} {n m : Nat}

theorem Reaches.one (h : st.advance hasAcquire u = st') : Reaches hasAcquire u 1 st st' :=
  ⟨1, Nat.le_refl 1, h⟩

theorem Reaches.trans (h : Reaches hasAcquire u n st st') (h' : Reaches hasAcquire u m st' st'') :
    Reaches hasAcquire u (n + m) st st'' := by
  obtain ⟨k, hk, hiter⟩ := h
  obtain ⟨k', hk', hiter'⟩ := h'
  exact ⟨k' + k, by omega, by rw [iterate_add_apply, hiter, hiter']⟩

/-- With enough steps a call that returns has returned. -/
theorem Reaches.iterate (h : Reaches hasAcquire u n st st') {r : Int} {data : List UInt8}
    {hids : List UInt64} {controllen : Nat} (hp : st'.phase u = .returned r data hids controllen)
    (hle : n ≤ m) : (fun s => s.advance hasAcquire u)^[m] st = st' := by
  obtain ⟨k, hk, hiter⟩ := h
  obtain ⟨j, rfl⟩ := Nat.exists_eq_add_of_le (hk.trans hle)
  rw [Nat.add_comm, iterate_add_apply, hiter]
  apply iterate_fixed
  unfold advance
  simp only [hp]

/-! ## Reading the first frame -/

section Reads

variable (hasAcquire) (st u d call)

theorem read_header {f : Frame} (hwf : c.WF) (hcontents : c.contents = f.bytes ++ rest) :
    ∃ c' : Channel, c'.WF ∧ c'.contents = toBytes 4 f.payload.length ++ (f.payload ++ rest) ∧
      Reaches hasAcquire u 2 (st.put d c u (.recvHeader d call))
        (st.put d c' u (.recvLength d call f.rights)) := by
  obtain ⟨c1, hwf1, hafter, hadvance⟩ := advance_recvHeader hasAcquire st u d call hwf hcontents
  by_cases hpos : 0 < f.rights.length
  · -- the rights follow
    rw [if_pos hpos] at hadvance
    rw [Frame.afterHeader, append_assoc, append_assoc] at hafter
    obtain ⟨c2, hwf2, hafter2, hadvance2⟩ :=
      advance_recvRights hasAcquire st u d call hpos hwf1 hafter
    exact ⟨c2, hwf2, hafter2, (Reaches.one hadvance).trans (Reaches.one hadvance2)⟩
  · rw [if_neg hpos] at hadvance
    have hnil : f.rights = [] := length_eq_zero_iff.mp (by omega)
    refine ⟨c1, hwf1, ?_, 1, by omega, hadvance⟩
    rw [hafter, Frame.afterHeader, hnil, flatMap_nil, nil_append, append_assoc]

/-- One vector takes what `fill` says, in terms of the whole payload buffer. -/
theorem fill_room (v : IoVec) (iov : List IoVec) (part : List UInt8) :
    (fill v iov part.length = (0, []) ∧ part.drop (room (v :: iov)) = part) ∨
    (fill v iov part.length = (min part.length v.len, iov) ∧
      room (v :: iov) = v.len + room iov) := by
  unfold fill
  split
  · next hzero =>
    rw [length_eq_zero_iff.mp hzero]
    exact .inl ⟨rfl, by simp⟩
  split
  · next hnull =>
    rw [room, if_pos hnull]
    exact .inl ⟨rfl, drop_zero⟩
  · next hnull =>
    rw [room, if_neg hnull]
    exact .inr ⟨rfl, rfl⟩

theorem take_min_length {α : Type} (xs : List α) (n : Nat) :
    xs.take (min xs.length n) = xs.take n ∧ xs.drop (min xs.length n) = xs.drop n := by
  rcases Nat.le_total xs.length n with hle | hle
  · rw [Nat.min_eq_left hle, take_length, drop_length, take_of_length_le hle, drop_of_length_le hle]
    exact ⟨rfl, rfl⟩
  · rw [Nat.min_eq_right hle]
    exact ⟨rfl, rfl⟩

/-- The loop over the vectors. -/
theorem read_payload (iov : List IoVec) (rights : List FrameRight) (data : List UInt8)
    {part : List UInt8} (hwf : c.WF) (hcontents : c.contents = part ++ rest) :
    ∃ c' : Channel, c'.WF ∧ c'.contents = part.drop (room iov) ++ rest ∧
      Reaches hasAcquire u iov.length (st.put d c u (.scatter d call rights iov part.length data))
        (st.put d c' u (.scatter d call rights [] (part.drop (room iov)).length
          (data ++ part.take (room iov)))) := by
  induction iov generalizing c data part with
  | nil => exact ⟨c, hwf, hcontents, 0, Nat.le_refl 0, by simp [room]⟩
  | cons v iov ih =>
    obtain ⟨c1, hwf1, hafter, hadvance⟩ :=
      advance_scatter hasAcquire st u d call rights v iov data hwf hcontents
    rcases fill_room v iov part with ⟨hfill, hpart⟩ | ⟨hfill, hroom⟩
    · -- a vector that ends the loop
      rw [hfill] at hafter hadvance
      have htake : part.take (room (v :: iov)) = [] := by
        have hlen := congrArg List.length (take_append_drop (room (v :: iov)) part)
        rw [hpart, length_append] at hlen
        exact length_eq_zero_iff.mp (by omega)
      refine ⟨c1, hwf1, by rw [hpart]; exact hafter, 1, by simp, ?_⟩
      rw [hpart, htake]
      exact hadvance
    -- a vector that is filled, and the rest of the loop
    obtain ⟨htake, hdrop⟩ := take_min_length part v.len
    have hremaining : part.length - min part.length v.len = (part.drop v.len).length := by
      rw [length_drop]
      omega
    rw [hfill] at hafter hadvance
    simp only [htake, hdrop, hremaining] at hafter hadvance
    obtain ⟨c2, hwf2, hafter2, hreach⟩ := ih _ hwf1 hafter
    refine ⟨c2, hwf2, by rw [hafter2, hroom, drop_drop], ?_⟩
    rw [hroom, length_cons, Nat.add_comm iov.length 1, ← drop_drop, take_add, ← append_assoc]
    exact (Reaches.one hadvance).trans hreach

/-- All reads of a `recvmsg`, up to the transfers. -/
theorem read_frame {f : Frame} (hwf : c.WF) (hcontents : c.contents = f.bytes ++ rest)
    (htable : (st.table call.realm).isSome) :
    ∃ c' : Channel, c'.WF ∧ c'.contents = f.payload.drop (room call.msg.iov) ++ rest ∧
      Reaches hasAcquire u (call.msg.iov.length + 4) (st.put d c u (.recvHeader d call))
        (st.put d c' u (.transfer d call f.rights (f.payload.take (room call.msg.iov)) [])) := by
  obtain ⟨c1, hwf1, hcontents1, hreach1⟩ := read_header hasAcquire st u d call hwf hcontents
  obtain ⟨c2, hwf2, hcontents2, hadvance⟩ :=
    advance_recvLength hasAcquire st u d call f.rights f.short hwf1 hcontents1
  obtain ⟨c3, hwf3, hcontents3, hreach3⟩ :=
    read_payload hasAcquire st u d call call.msg.iov f.rights [] hwf2 hcontents2
  refine ⟨c3, hwf3, hcontents3, ?_⟩
  -- the last step looks the receiver up
  obtain ⟨t, ht⟩ := Option.isSome_iff_exists.mp htable
  have hlast : (st.put d c3 u (.scatter d call f.rights [] (f.payload.drop (room call.msg.iov)).length
        ([] ++ f.payload.take (room call.msg.iov)))).advance hasAcquire u =
      st.put d c3 u (.transfer d call f.rights (f.payload.take (room call.msg.iov)) []) := by
    unfold advance
    simp only [put_phase, put_setPhase, nil_append, show (st.put d c3 u _).table call.realm = _ from ht]
  rw [show call.msg.iov.length + 4 = 2 + 1 + call.msg.iov.length + 1 by omega]
  exact ((hreach1.trans (Reaches.one hadvance)).trans hreach3).trans (Reaches.one hlast)

end Reads

/-! ## Between calls -/

/-- No call is under way, and the direction `d` holds these frames. Their rights are of entries
that were there in `s₀` and are still, with a reference for each right. -/
structure Ready (s₀ : Sockets ρ C U) (d : C × Bool) (fs : List Frame) (st : Sockets ρ C U) :
    Prop where
  idle : ∀ u, st.Idle u
  wf : (st.channel d).WF
  contents : (st.channel d).contents = fs.flatMap Frame.bytes
  keeps : s₀.Keeps st
  named : ∀ f ∈ fs, ∀ r ∈ f.rights, ∃ e, s₀.found r = some e ∧ e.transferable = true
  floor : st.Floor fun r => 1 + (fs.flatMap Frame.rights).count r

variable {s₀ : Sockets ρ C U} {fs : List Frame}

omit [DecidableEq C] in
theorem idle_setPhase {r : Int} {data : List UInt8} {hids : List UInt64} {controllen : Nat}
    (h : ∀ v, v ≠ u → st.Idle v) (v : U) :
    (st.setPhase u (.returned r data hids controllen)).Idle v := by
  by_cases hv : v = u
  · subst hv
    simp [Idle]
  · have hidle := h v hv
    unfold Idle at hidle ⊢
    rwa [setPhase_of_ne hv]

omit [DecidableEq C] in
/-- What `sendmsg` returns when its frame is in the channel, and when it is not. -/
theorem finishSend_result {rights : List FrameRight} {payloadLen frameLen : Nat} {sent : Int}
    {r : Int} (h : ((st.finishSend u rights payloadLen frameLen sent).result u).map
      (fun x => x.1) = some r) (hr : 0 ≤ r) : (frameLen : Int) ≤ sent := by
  unfold finishSend at h
  split at h
  · next hneg =>
    simp only [result, setPhase_self, Option.map_some, Option.some.injEq] at h
    omega
  split at h
  · simp only [result, setPhase_self, Option.map_some, Option.some.injEq, emsgsize] at h
    omega
  · omega

/-- A frame whose `sendmsg` returns a length is in the channel. -/
theorem advance_sendFrame {frame : List UInt8} {payloadLen : Nat} {rights : List FrameRight}
    {blocking : Bool} {r : Int} (hp : st.phase u = .sendFrame d frame payloadLen rights blocking)
    (hwf : (st.channel d).WF) (hne : frame ≠ [])
    (hanswer : ((st.advance hasAcquire u).result u).map (fun x => x.1) = some r) (hr : 0 ≤ r) :
    ∃ c : Channel, c.WF ∧ c.contents = (st.channel d).contents ++ frame ∧
      st.advance hasAcquire u = (st.setChannel d c).setPhase u (.ret (isize payloadLen)) := by
  unfold advance at hanswer ⊢
  simp only [hp] at hanswer ⊢
  rcases Channel.sendBytes_cases _ hwf frame with
    ⟨r', hsend, hwhy⟩ | ⟨hsend, -, -⟩ | ⟨c, n, hsend, -, hmin, -, hcwf, -, hcontents⟩
  · rw [hsend] at hanswer
    have hle := finishSend_result hanswer hr
    rcases hwhy with ⟨hnil, -⟩ | ⟨-, -, rfl⟩
    · exact absurd hnil hne
    · have hneg := Error.toErrno_neg .pipe
      omega
  · rw [hsend] at hanswer
    by_cases hblocking : blocking
    · simp [hblocking, result, hp] at hanswer
    simp only [if_neg hblocking] at hanswer
    have hle := finishSend_result hanswer hr
    have hneg := Error.toErrno_neg .again
    omega
  simp only [hsend] at hanswer ⊢
  have hle := finishSend_result hanswer hr
  have hall : n = frame.length := by omega
  rw [hall, take_length] at hcontents
  refine ⟨c, hcwf, hcontents, ?_⟩
  unfold finishSend
  rw [if_neg (by omega), if_neg (by omega)]

/-- A `sendmsg` that returns a length has put the frame of its message into the channel, and
has changed no entry but for a reference to each of its handles. -/
theorem Ready.send (h : Ready s₀ d fs st) (hsame : SameFound s₀ st) {c : SendCall U} {r : Int}
    (hanswer : (sendCall hasAcquire d st c).2 = some r) (hr : 0 ≤ r)
    (hshort : c.msg.gathered.length < 2 ^ 32) :
    ∃ f : Frame, f.rights = c.msg.hids.map (FrameRight.mk c.realm) ∧
      f.payload = c.msg.gathered ∧ Ready s₀ d (fs ++ [f]) (sendCall hasAcquire d st c).1 ∧
      SameFound s₀ (sendCall hasAcquire d st c).1 := by
  have hstart : (st.step hasAcquire (.sendmsg c.u d c.realm c.msg c.blocking c.mallocOk)).1 =
      st.startSendmsg hasAcquire c.u d c.realm c.msg c.blocking c.mallocOk := by
    unfold step
    simp only [h.idle c.u, if_true]
  unfold sendCall at hanswer ⊢
  rw [hstart] at hanswer ⊢
  simp only at hanswer ⊢
  obtain ⟨st1, hfound, hphase, hchannel, ⟨p, hp, -, heq⟩ |
    ⟨rs, ⟨t, t', hres⟩, hfew, hrs, hall, heq⟩⟩ := startSendmsg_spec c.realm
      c.msg (fun _ => Nat.le_add_right 1 _) h.floor
  · -- a call that has failed stays failed
    rw [heq] at hanswer
    rcases hp with rfl | ⟨e, rfl⟩
    · simp [advance, result] at hanswer
    · simp only [advance, setPhase_self, result, Option.map_some, Option.some.injEq] at hanswer
      have hneg := e.toErrno_neg
      omega
  -- the frame is ready
  rw [heq] at hanswer ⊢
  have hpayload : c.msg.payloadLen = c.msg.gathered.length := by
    unfold OutMsg.gathered at hshort ⊢
    rw [length_flatten] at hshort ⊢
    exact Nat.mod_eq_of_lt (by omega)
  have hlen : c.msg.payloadLen < 2 ^ 32 := hpayload ▸ hshort
  rw [c.msg.frame_eq rs hfew hlen] at hanswer ⊢
  obtain ⟨ch, hchwf, hchcontents, hadvance⟩ := advance_sendFrame setPhase_self
    (show (st1.channel d).WF by rw [hchannel]; exact h.wf) Frame.bytes_ne_nil hanswer hr
  rw [hadvance]
  refine ⟨c.msg.toFrame rs hfew hlen, ?_, ?_, ⟨?_, ?_, ?_, ?_, ?_, ?_⟩, hsame.trans hfound⟩
  · have hcollected := collectRights_eq hres
    exact hcollected
  · show c.msg.gathered.take c.msg.payloadLen = c.msg.gathered
    rw [hpayload, take_length]
  · refine idle_setPhase fun v hv => ?_
    have hidle := h.idle v
    unfold Idle at hidle ⊢
    rwa [setChannel_phase, setPhase_of_ne hv, hphase]
  · rw [setPhase_channel, setChannel_self]
    exact hchwf
  · rw [setPhase_channel, setChannel_self, hchcontents, setPhase_channel, hchannel, h.contents,
      flatMap_append, flatMap_singleton]
  · exact h.keeps.trans hfound.keeps
  · intro f hf r hr
    rcases mem_append.mp hf with hf | hf
    · exact h.named f hf r hr
    obtain rfl := mem_singleton.mp hf
    obtain ⟨-, -, e, he, htransferable⟩ := hrs r hr
    -- the entry was there from the start
    have hr0 := hsame r
    rw [he, Option.map_some] at hr0
    obtain ⟨e0, he0, heq⟩ := Option.map_eq_some_iff.mp hr0.symm
    have htransferable0 : (uncounted e0).transferable = e.transferable := by
      rw [heq]
      rfl
    exact ⟨e0, he0, htransferable0.trans htransferable⟩
  · refine hall.mono fun r => ?_
    rw [flatMap_append, flatMap_singleton, count_append]
    exact Nat.le_of_eq (Nat.add_assoc _ _ _).symm

variable (hasAcquire) in
/-- A `recvmsg` reads the first frame: its payload, as far as the vectors reach, and its rights.
If they reach to the end of the payload, the next frame comes next. -/
theorem Ready.recv {f : Frame} (h : Ready s₀ d (f :: fs) st) {q : RecvReq U}
    (hcap : 8 * f.rights.length ≤ q.msg.outCap) (hroom : st.Room q.realm f.rights.length)
    (hgrant : ∀ r ∈ f.rights, ∀ e, s₀.found r = some e → Grantable hasAcquire e) :
    ∃ hids, (recvCall hasAcquire d st q).2 = some (((f.payload.take (room q.msg.iov)).length : Int),
          f.payload.take (room q.msg.iov), hids) ∧
      List.Forall₂ (Delivered s₀ (recvCall hasAcquire d st q).1 q.realm) f.rights hids ∧
      (f.payload.length ≤ room q.msg.iov → Ready s₀ d fs (recvCall hasAcquire d st q).1) := by
  let call : RecvCall := ⟨q.realm, q.msg, q.blocking⟩
  have hstart : (st.step hasAcquire (.recvmsg q.u (rx d) q.realm q.msg q.blocking)).1 =
      st.put d (st.channel d) q.u (.recvHeader d call) := by
    unfold step
    simp only [h.idle q.u, if_true, rx_rx, put, setChannel_channel]
    rfl
  -- the reads
  obtain ⟨t, ht, hcard⟩ := hroom
  have hcontents : (st.channel d).contents = f.bytes ++ fs.flatMap Frame.bytes := h.contents
  obtain ⟨c, hcwf, hccontents, hreach⟩ := read_frame hasAcquire st q.u d call h.wf
    hcontents (by rw [show st.table call.realm = some t from ht]; rfl)
  generalize hst1 : st.put d c q.u
    (.transfer d call f.rights (f.payload.take (room call.msg.iov)) []) = st1 at hreach
  have hfound1 : st1.found = st.found := by rw [← hst1]; rfl
  have hothers1 : ∀ v, v ≠ q.u → st1.phase v = st.phase v := by
    intro v hv
    rw [← hst1, put, setPhase_of_ne hv, setChannel_phase]
  have hchannel1 : st1.channel d = c := by rw [← hst1, put_channel]
  have hp1 : st1.phase q.u = .transfer d call f.rights
      (f.payload.take (room call.msg.iov)) [] := by rw [← hst1, put_phase]
  -- the entries of the rights
  have hentry : ∀ f' ∈ f :: fs, ∀ r ∈ f'.rights, ∃ e0 e, s₀.found r = some e0 ∧
      st1.found r = some e ∧ uncounted e = uncounted e0 := by
    intro f' hf' r hr
    obtain ⟨e0, he0, -⟩ := h.named f' hf' r hr
    obtain ⟨e, he, heq⟩ := h.keeps r e0 he0
    exact ⟨e0, e, he0, hfound1 ▸ he, heq⟩
  -- the transfers
  obtain ⟨st2, hids, hiter, hp2, hdelivered, hkeeps, hfloor, hchannel2, hothers2⟩ :=
    advance_transfers hasAcquire f.rights
      (n := fun r => 1 + (fs.flatMap Frame.rights).count r) hp1 (fun r => Nat.le_add_right 1 _)
      (fun r => by
        by_cases hr : r ∈ fs.flatMap Frame.rights
        · obtain ⟨f', hf', hrf⟩ := mem_flatMap.mp hr
          obtain ⟨-, e, -, he, -⟩ := hentry f' (mem_cons_of_mem f hf') r hrf
          exact .inr (by rw [he]; rfl)
        · exact .inl (by rw [count_eq_zero.mpr hr]))
      (by
        intro r e he
        rw [hfound1] at he
        have hcount := h.floor r e he
        simp only [flatMap_cons, count_append] at hcount
        show 1 + _ + f.rights.count r ≤ e.refcount
        omega)
      (fun r hr => by
        obtain ⟨e0, e, he0, he, heq⟩ := hentry f mem_cons_self r hr
        exact ⟨e, he, (hgrant r hr e0 he0).of_uncounted heq⟩)
      (by rw [← hst1]; exact ⟨t, ht, hcard⟩)
      (by simpa using hcap)
  -- the return
  have hlast : st2.advance hasAcquire q.u =
      st2.finishRecv q.u (f.payload.take (room q.msg.iov)) hids := by
    unfold advance
    simp only [hp2, nil_append]
    rfl
  generalize hst3 : st2.finishRecv q.u (f.payload.take (room q.msg.iov)) hids = st3 at hlast
  obtain ⟨controllen, hp3⟩ : ∃ controllen, st3.phase q.u = .returned
      (f.payload.take (room q.msg.iov)).length (f.payload.take (room q.msg.iov)) hids
      controllen := ⟨_, by rw [← hst3, finishRecv, setPhase_self]⟩
  have hall := (hreach.trans ⟨_, Nat.le_refl _, hiter⟩).trans (Reaches.one hlast)
  have hfew := f.few
  have hcall : (recvCall hasAcquire d st q).1 = st3 := by
    unfold recvCall
    rw [hstart]
    exact hall.iterate hp3 (by simp only [call]; omega)
  have hanswer : (recvCall hasAcquire d st q).2 = st3.result q.u := by
    rw [← hcall]
    rfl
  have hfound3 : st3.found = st2.found := by rw [← hst3]; rfl
  have hkeeps3 : s₀.Keeps st3 := by
    intro r e he
    obtain ⟨e1, he1, heq1⟩ := h.keeps r e he
    rw [← hfound1] at he1
    obtain ⟨e2, he2, heq2⟩ := hkeeps r e1 he1
    exact ⟨e2, hfound3 ▸ he2, heq2.trans heq1⟩
  rw [hcall, hanswer]
  refine ⟨hids, ?_, ?_, fun hwhole => ⟨?_, ?_, ?_, hkeeps3, ?_, ?_⟩⟩
  · unfold result
    rw [hp3]
  · refine ((forall₂_and_left f.rights hids).mpr ⟨h.named f mem_cons_self,
      hdelivered⟩).imp fun r hid hr => ?_
    obtain ⟨⟨e0, he0, -⟩, hdel⟩ := hr
    have hdel' : Delivered st st3 q.realm r hid := by
      obtain ⟨e, e', he, he', hresource⟩ := hdel
      exact ⟨e, e', hfound1 ▸ he, hfound3 ▸ he', hresource⟩
    exact hdel'.mono h.keeps (by rw [he0]; rfl) (Keeps.refl st3)
  · rw [← hst3]
    refine idle_setPhase fun v hv => ?_
    have hidle := h.idle v
    unfold Idle at hidle ⊢
    rwa [hothers2 v hv, hothers1 v hv]
  · rw [← hst3, finishRecv, setPhase_channel, hchannel2, hchannel1]
    exact hcwf
  · rw [← hst3, finishRecv, setPhase_channel, hchannel2, hchannel1, hccontents,
      drop_of_length_le hwhole, nil_append]
  · exact fun f' hf' => h.named f' (mem_cons_of_mem f hf')
  · rw [← hst3]
    exact hfloor

/-! ## Sends, and then receives -/

/-- The frame of a message. -/
def IsFrameOf (c : SendCall U) (f : Frame) : Prop :=
  f.rights = c.msg.hids.map (FrameRight.mk c.realm) ∧ f.payload = c.msg.gathered

variable (hasAcquire) in
/-- After a row of sends that all return a length, their frames are in the channel. -/
theorem Ready.sends (h : Ready s₀ d fs st) (hsame : SameFound s₀ st) (sends : List (SendCall U))
    (hanswers : ∀ a ∈ answers (sendCall hasAcquire d) st sends, ∃ r, a = some r ∧ 0 ≤ r)
    (hshort : ∀ c ∈ sends, c.msg.gathered.length < 2 ^ 32) :
    ∃ new, List.Forall₂ IsFrameOf sends new ∧
      Ready s₀ d (fs ++ new) (final (sendCall hasAcquire d) st sends) ∧
      SameFound s₀ (final (sendCall hasAcquire d) st sends) := by
  induction sends generalizing st fs with
  | nil => exact ⟨[], .nil, by rwa [append_nil], hsame⟩
  | cons c sends ih =>
    obtain ⟨r, hanswer, hr⟩ := hanswers _ mem_cons_self
    obtain ⟨f, hrights, hpayload, hready, hsame'⟩ :=
      h.send hsame hanswer hr (hshort c mem_cons_self)
    obtain ⟨new, hnew, hready', hsame''⟩ := ih hready hsame'
      (fun a ha => hanswers a (mem_cons_of_mem _ ha))
      (fun c' hc' => hshort c' (mem_cons_of_mem _ hc'))
    refine ⟨f :: new, .cons ⟨hrights, hpayload⟩ hnew, ?_, hsame''⟩
    rwa [append_assoc, singleton_append] at hready'

/-- What a receive needs to get the handles of the message of `c`, which was sent from the state
`sent`: control space and slots for all of them, and handles that can be granted. -/
structure Suits (hasAcquire : ρ → Bool) (sent : Sockets ρ C U) (c : SendCall U)
    (st : Sockets ρ C U) (q : RecvReq U) : Prop where
  control : 8 * c.msg.hids.length ≤ q.msg.outCap
  slots : st.Room q.realm c.msg.hids.length
  grantable : ∀ hid ∈ c.msg.hids, ∀ e, sent.found ⟨c.realm, hid⟩ = some e → Grantable hasAcquire e

omit [DecidableEq C] [DecidableEq U] in
theorem Suits.of_sameFound {sent : Sockets ρ C U} {c : SendCall U} {q : RecvReq U}
    (h : Suits hasAcquire sent c st q) (hsame : SameFound s₀ sent) :
    Suits hasAcquire s₀ c st q where
  control := h.control
  slots := h.slots
  grantable hid hhid e he := by
    obtain ⟨e', he', heq⟩ := hsame.keeps _ e he
    exact (h.grantable hid hhid e' he').of_uncounted heq.symm

/-- The answer to a receive is the payload of the message, as far as the vectors reach, and
handles of what its handles stood for in the state `sent`. -/
def Answers (sent : Sockets ρ C U) (c : SendCall U) (after : Sockets ρ C U) (q : RecvReq U)
    (a : Option (Int × List UInt8 × List UInt64)) : Prop :=
  ∃ hids, a = some (((c.msg.gathered.take (room q.msg.iov)).length : Int),
      c.msg.gathered.take (room q.msg.iov), hids) ∧
    List.Forall₂ (Delivered sent after q.realm) (c.msg.hids.map (FrameRight.mk c.realm)) hids

variable (hasAcquire) in
/-- A row of receives reads the frames one after the other. -/
theorem Ready.recvs {sends : List (SendCall U)} (h : Ready s₀ d fs st)
    (hframes : List.Forall₂ IsFrameOf sends fs) (recvs : List (RecvReq U))
    (hsuits : ∀ k c q, sends[k]? = some c → recvs[k]? = some q →
      Suits hasAcquire s₀ c (final (recvCall hasAcquire d) st (recvs.take k)) q)
    (hwhole : ∀ k c q, sends[k]? = some c → recvs[k]? = some q → k + 1 < recvs.length →
      c.msg.gathered.length ≤ room q.msg.iov)
    {k : Nat} {c : SendCall U} {q : RecvReq U} (hc : sends[k]? = some c) (hq : recvs[k]? = some q) :
    ∃ a, (answers (recvCall hasAcquire d) st recvs)[k]? = some a ∧
      Answers s₀ c (final (recvCall hasAcquire d) st (recvs.take (k + 1))) q a := by
  induction recvs generalizing sends fs st k with
  | nil => cases hq
  | cons q0 recvs ih =>
    cases hframes with
    | nil => cases hc
    | @cons c0 f sends fs hframe hframes =>
    obtain ⟨hrights, hpayload⟩ := hframe
    have hsuits0 := hsuits 0 c0 q0 rfl rfl
    obtain ⟨hids, hanswer, hdelivered, hready⟩ := h.recv hasAcquire (q := q0)
      (by rw [hrights, length_map]; exact hsuits0.control)
      (by rw [hrights, length_map]; exact hsuits0.slots)
      (by
        intro r hr e he
        rw [hrights] at hr
        obtain ⟨hid, hhid, rfl⟩ := mem_map.mp hr
        exact hsuits0.grantable hid hhid e he)
    cases k with
    | zero =>
      obtain rfl : c0 = c := Option.some.inj hc
      obtain rfl : q0 = q := Option.some.inj hq
      rw [hpayload] at hanswer
      rw [hrights] at hdelivered
      exact ⟨_, rfl, hids, hanswer, hdelivered⟩
    | succ k =>
      have hmore : 0 < recvs.length := by
        have hlt := (List.getElem?_eq_some_iff.mp hq).1
        rw [length_cons] at hlt
        omega
      -- there is a receive behind this one, so this one took its payload whole
      have hready' := hready (by
        rw [hpayload]
        exact hwhole 0 c0 q0 rfl rfl (by rw [length_cons]; omega))
      exact ih hready' hframes (fun k c q hc hq => hsuits (k + 1) c q hc hq)
        (fun k c q hc hq hlt => hwhole (k + 1) c q hc hq (by rw [length_cons]; omega)) hc hq

omit [DecidableEq C] [DecidableEq U] in
theorem Fresh.ready (h : s₀.Fresh) (d : C × Bool) : Ready s₀ d [] s₀ where
  idle := h.idle
  wf := h.wf d
  contents := h.empty d
  keeps := Keeps.refl s₀
  named f hf := by cases hf
  floor r e he := h.counted r e he

end Sockets

/-! ## Sends that fail -/

/-- The channel takes `n` bytes at once or none of them. -/
def Channel.AllOrNothing (c : Channel) (n : Nat) : Prop :=
  c.readerCount = 0 ∨ c.used = c.capacity ∨ n ≤ c.capacity - c.used

theorem Channel.AllOrNothing.sendBytes {c : Channel} {bs : List UInt8}
    (h : c.AllOrNothing bs.length) : (∃ r, c.sendBytes bs = .stay r) ∨ c.sendBytes bs = .wait ∨
      ∃ c', c.sendBytes bs = .moved c' bs.length := by
  unfold Channel.sendBytes
  by_cases hnil : bs = []
  · exact .inl ⟨_, if_pos hnil⟩
  by_cases hreader : c.readerCount = 0
  · exact .inl ⟨_, by rw [if_neg hnil, if_pos hreader]⟩
  rw [if_neg hnil, if_neg hreader]
  by_cases hfull : c.capacity - c.used = 0
  · exact .inr (.inl (if_pos hfull))
  have hfits : bs.length ≤ c.capacity - c.used := by
    rcases h with hreader' | hused | hfits
    · exact absurd hreader' hreader
    · omega
    · exact hfits
  rw [if_neg hfull]
  simp only [Nat.min_eq_left hfits]
  exact .inr (.inr ⟨_, rfl⟩)

namespace Sockets

variable {ρ C U : Type} [DecidableEq C] [DecidableEq U] {hasAcquire : ρ → Bool}
  {st : Sockets ρ C U} {u : U} {d : C × Bool}

omit [DecidableEq C] in
theorem startSendmsg_channel {realm : UInt64} {msg : OutMsg} {blocking mallocOk : Bool} :
    (st.startSendmsg hasAcquire u d realm msg blocking mallocOk).channel = st.channel := by
  unfold startSendmsg
  split
  · rfl
  split
  · rfl
  · rfl
  simp only
  split
  · rfl
  · rw [setPhase_channel, releaseRights_channel, setTable_channel]

omit [DecidableEq C] in
theorem finishSend_channel {rights : List FrameRight} {payloadLen frameLen : Nat} {sent : Int} :
    (st.finishSend u rights payloadLen frameLen sent).channel = st.channel := by
  unfold finishSend
  split
  · rw [setPhase_channel, releaseRights_channel]
  split
  · rw [setPhase_channel, releaseRights_channel]
  · rfl

/-- The access of a `sendmsg` to the channel either leaves all channels or returns a length. -/
theorem sendFrame_all_or_nothing {frame : List UInt8} {payloadLen : Nat} {rights : List FrameRight}
    {blocking : Bool} (hp : st.phase u = .sendFrame d frame payloadLen rights blocking)
    (hall : (st.channel d).AllOrNothing frame.length) (hlen : payloadLen < 2 ^ 63) :
    (st.advance hasAcquire u).channel = st.channel ∨
      (st.advance hasAcquire u).result u = some ((payloadLen : Int), [], []) := by
  unfold advance
  simp only [hp]
  rcases hall.sendBytes with ⟨r, hsend⟩ | hsend | ⟨c, hsend⟩
  · simp only [hsend]
    exact .inl finishSend_channel
  · simp only [hsend]
    split
    · exact .inl rfl
    · exact .inl finishSend_channel
  simp only [hsend]
  right
  unfold finishSend
  rw [if_neg (by omega), if_neg (by omega)]
  simp only [result, setPhase_self, isize, if_pos hlen]

/-! ## Runs -/

/-- The k-th receive answers with the payload of the k-th message, as far as its vectors reach,
and with its handles, if the payloads are shorter than 2^32, each receive suits the handles of
its message and each receive but the last has vectors for the whole payload. And a step of a
`sendmsg` leaves the channels unless it returns the length of the payload, if the channel takes
the frame at once or nothing of it. -/
theorem boundaries_kept (hasAcquire : ρ → Bool) (s₀ : Sockets ρ C U) (hfresh : s₀.Fresh)
    (d : C × Bool) :
    (∀ (sends : List (SendCall U)) (recvs : List (RecvReq U)),
      (∀ a ∈ answers (sendCall hasAcquire d) s₀ sends, ∃ r, a = some r ∧ 0 ≤ r) →
      (∀ c ∈ sends, c.msg.gathered.length < 2 ^ 32) →
      (∀ k c q, sends[k]? = some c → recvs[k]? = some q →
        Suits hasAcquire (final (sendCall hasAcquire d) s₀ (sends.take k)) c
          (final (recvCall hasAcquire d) (final (sendCall hasAcquire d) s₀ sends)
            (recvs.take k)) q) →
      (∀ k c q, sends[k]? = some c → recvs[k]? = some q → k + 1 < recvs.length →
        c.msg.gathered.length ≤ room q.msg.iov) →
      ∀ k c q, sends[k]? = some c → recvs[k]? = some q →
        ∃ a, (answers (recvCall hasAcquire d) (final (sendCall hasAcquire d) s₀ sends)
            recvs)[k]? = some a ∧
          Answers (final (sendCall hasAcquire d) s₀ (sends.take k)) c
            (final (recvCall hasAcquire d) (final (sendCall hasAcquire d) s₀ sends)
              (recvs.take (k + 1))) q a) ∧
    ∀ (st : Sockets ρ C U) (u : U),
      (∀ ep realm msg blocking mallocOk,
        (st.step hasAcquire (.sendmsg u ep realm msg blocking mallocOk)).1.channel = st.channel) ∧
      ∀ d' frame payloadLen rights blocking,
        st.phase u = .sendFrame d' frame payloadLen rights blocking →
        (st.channel d').AllOrNothing frame.length → payloadLen < 2 ^ 63 →
        (st.step hasAcquire (.advance u)).1.channel = st.channel ∨
          (st.step hasAcquire (.advance u)).1.result u = some ((payloadLen : Int), [], []) := by
  refine ⟨?_, fun st u => ⟨?_, ?_⟩⟩
  · intro sends recvs hanswers hshort hsuits hwhole k c q hc hq
    obtain ⟨fs, hframes, hready, -⟩ := (hfresh.ready d).sends hasAcquire (SameFound.refl s₀) sends
      hanswers hshort
    -- the entries at the time of a send are those of the start
    have hbefore : ∀ k, SameFound s₀ (final (sendCall hasAcquire d) s₀ (sends.take k)) := by
      intro k
      obtain ⟨-, -, -, hsame⟩ := (hfresh.ready d).sends hasAcquire
        (SameFound.refl s₀) (sends.take k)
        (fun a ha => hanswers a (mem_of_mem_take (answers_take ▸ ha)))
        fun c hc => hshort c (mem_of_mem_take hc)
      exact hsame
    obtain ⟨a, ha, hids, hanswer, hdelivered⟩ := hready.recvs hasAcquire hframes
      recvs (fun k c q hc hq => (hsuits k c q hc hq).of_sameFound (hbefore k)) hwhole hc hq
    refine ⟨a, ha, hids, hanswer, hdelivered.imp fun r hid hr => ?_⟩
    have hentry := hr
    obtain ⟨e, -, he, -⟩ := hentry
    obtain ⟨e', he', -⟩ := (hbefore k).keeps r e he
    exact hr.mono (hbefore k).symm.keeps (by rw [he']; rfl) (Keeps.refl _)
  · intro ep realm msg blocking mallocOk
    unfold step
    simp only
    split
    · exact startSendmsg_channel
    · rfl
  · intro d' frame payloadLen rights blocking hp hall hlen
    exact sendFrame_all_or_nothing hp hall hlen

/-- A message without handles. -/
def plainCall (bs : List UInt8) : SendCall Bool := ⟨false, 1, ⟨[bs], none, 0⟩, true, true⟩

/-- A message with a handle, and one without. -/
def twoCalls : List (SendCall Bool) := [⟨false, 1, fileMsg, true, true⟩, plainCall [3, 4]]

/-- A receive for both bytes and the handle of the first, and one for a byte of the second. -/
def twoReqs : List (RecvReq Bool) :=
  [⟨true, 2, ⟨[⟨false, 2⟩], true, 24⟩, true⟩, ⟨true, 2, ⟨[⟨false, 1⟩], false, 0⟩, true⟩]

theorem twoCalls_suits (k : Nat) (c : SendCall Bool) (q : RecvReq Bool)
    (hc : twoCalls[k]? = some c) (hq : twoReqs[k]? = some q) :
    Suits (fun _ => true) (final (sendCall (fun _ => true) ((), true)) oneFile (twoCalls.take k)) c
      (final (recvCall (fun _ => true) ((), true))
        (final (sendCall (fun _ => true) ((), true)) oneFile twoCalls) (twoReqs.take k)) q := by
  rcases k with _ | _ | k
  · cases hc
    cases hq
    refine ⟨by decide +kernel, by decide +kernel, fun hid hhid e he => ?_⟩
    have hhids : OutMsg.hids fileMsg = [fileHid] := by decide +kernel
    rw [hhids, mem_singleton] at hhid
    subst hhid
    have hfound : oneFile.found ⟨1, fileHid⟩ = some ⟨fileHid, .file, 7, 3, 1, true⟩ := by
      decide +kernel
    obtain rfl := Option.some.inj (hfound.symm.trans he)
    exact ⟨rfl, by decide, rfl⟩
  · cases hc
    cases hq
    exact ⟨by decide +kernel, by decide +kernel, fun hid hhid => by cases hhid⟩
  · cases hc

theorem boundaries_kept_twice :
    ∃ a, (answers (recvCall (fun _ => true) ((), true))
        (final (sendCall (fun _ => true) ((), true)) oneFile twoCalls) twoReqs)[1]? = some a ∧
      Answers (final (sendCall (fun _ => true) ((), true)) oneFile (twoCalls.take 1))
        (plainCall [3, 4])
        (final (recvCall (fun _ => true) ((), true))
          (final (sendCall (fun _ => true) ((), true)) oneFile twoCalls) (twoReqs.take 2))
        ⟨true, 2, ⟨[⟨false, 1⟩], false, 0⟩, true⟩ a := by
  refine (boundaries_kept (fun _ => true) oneFile oneFile_fresh ((), true)).1 twoCalls twoReqs
    ?_ ?_ twoCalls_suits ?_ 1 (plainCall [3, 4]) _ rfl rfl
  · have hanswers : answers (sendCall (fun _ => true) ((), true)) oneFile twoCalls =
        [some 2, some 2] := by decide +kernel
    intro a ha
    rw [hanswers] at ha
    exact ⟨2, by simpa using ha, by decide⟩
  · decide +kernel
  intro k c q hc hq hlt
  obtain rfl : k = 0 := by
    have hlen : twoReqs.length = 2 := rfl
    omega
  cases hc
  cases hq
  decide +kernel

/-- A receive with a short vector leaves the rest of its payload, and the next one reads it as
a header; and a frame that does not fit is cut off inside the channel, although the `sendmsg`
fails. -/
theorem boundaries_lost :
    oneFile.Fresh ∧
    answers (sendCall (fun _ => true) ((), true)) oneFile [plainCall [1, 2], plainCall [3, 4]] =
      [some 2, some 2] ∧
    answers (recvCall (fun _ => true) ((), true))
        (final (sendCall (fun _ => true) ((), true)) oneFile [plainCall [1, 2], plainCall [3, 4]])
        [⟨true, 2, ⟨[⟨false, 1⟩], false, 0⟩, true⟩, ⟨true, 2, ⟨[⟨false, 1⟩], false, 0⟩, true⟩] =
      [some (1, [1], []), some (eproto, [], [])] ∧
    (sendCall (fun _ => true) ((), true) oneFile (plainCall (List.replicate 64 0))).2 =
      some emsgsize ∧
    ((sendCall (fun _ => true) ((), true) oneFile
      (plainCall (List.replicate 64 0))).1.channel ((), true)).contents ≠ [] := by
  refine ⟨oneFile_fresh, by decide +kernel, by decide +kernel, by decide +kernel, by decide +kernel⟩

end Sockets

end Vespera.Ipc
