import Vespera.Ipc.Rights

/-! # Every step keeps the rights

One lemma for each place a call can be in: a step from there keeps the invariant `Good`. The
steps that move bytes say which frames the direction has afterwards; the others are `Good.retable`.
-/

namespace Vespera.Ipc

open Function List Sockets

variable {ρ C U : Type} [DecidableEq U] {cur : U → List FrameRight}

/-- The step that follows `w` in the call of `u`. -/
structure Advanced [DecidableEq C] (hasAcquire : ρ → Bool) (w : Watched ρ C U) (u : U) (w' : Watched ρ C U) :
    Prop where
  st : w'.st = w.st.advance hasAcquire u
  raw : ∀ d, w'.raw d = (w.raw d || decide ((w.st.phase u).Taints w.st.channel d))

theorem Advanced.raw_eq [DecidableEq C] {hasAcquire : ρ → Bool} {w w' : Watched ρ C U} {u : U}
    (hw : Advanced hasAcquire w u w')
    (h : ∀ d, ¬ (w.st.phase u).Taints w.st.channel d) : w'.raw = w.raw := by
  funext d
  rw [hw.raw]
  simp [h d]

section Steps

variable [DecidableEq C] {N : C × Bool → FrameRight → ρ → Prop} {u : U} {d : C × Bool}
  {w' : Watched ρ C U} {rights : List FrameRight} {call : RecvCall}
  {frames : C × Bool → List Frame} {w : Watched ρ C U} {hasAcquire : ρ → Bool}

/-! ## Sending -/

variable (h : Good N frames cur w)

include h

/-- The tables change, and the unit goes on from there. -/
theorem Good.retable (d : C × Bool) (hreading : (w.st.phase u).reading = none) {st1 : Sockets ρ C U}
    (rs : List FrameRight) {p : Phase (C × Bool)} (hst : w'.st = st1.setPhase u p)
    (hraw : w'.raw = w.raw) (hphase : st1.phase = w.st.phase)
    (hchannel : st1.channel = w.st.channel) (hkeeps : w.st.Keeps st1)
    (hfloor : st1.Floor fun r => 1 + underWay frames (update cur u rs) r)
    (hp : p.reading = none) (hunit : UnitOk rs p)
    (hheld : ∀ d', p.carrying = some d' → ∀ r ∈ rs, st1.Held N d' r) :
    Good N frames (update cur u rs) w' := by
  have hsame : update frames d (frames d) = frames := update_eq_self d frames
  rw [← hsame] at hfloor ⊢
  refine h.next hst hphase (fun d' _ => by rw [hchannel]) (fun d' _ => by rw [hraw]) hkeeps
    (by rw [hchannel]; exact h.wf d) (by rw [hreading]; nofun) (by rw [hp]; nofun) ?_ hunit
    (fun f hf r hr => (h.heldFrames d f hf r hr).mono hkeeps) hheld hfloor
  rw [hraw]
  exact (h.queue d).append hphase (by rw [hreading]; nofun) (by rw [hp]; nofun)
    (by rw [hchannel, append_nil]) fun hfalse => ⟨hfalse, (append_nil _).symm⟩

/-- A unit that holds nothing goes on without touching a channel or a table. -/
theorem Good.idle_move {p : Phase (C × Bool)} (d : C × Bool)
    (hbefore : (w.st.phase u).reading = none)
    (hst : w'.st = w.st.setPhase u p) (hraw : w'.raw = w.raw) (hafter : p.carrying = none)
    (hreading : p.reading = none) (hunit : UnitOk [] p) : Good N frames (update cur u []) w' := by
  refine h.retable d hbefore [] hst hraw rfl rfl (Sockets.Keeps.refl w.st) ?_ hreading hunit ?_
  · refine h.floor.mono fun r => ?_
    have hdrop := h.underWay_drop d u r
    omega
  · intro d' hd'
    rw [hafter] at hd'
    cases hd'

/-- A call that has written to a channel and returns. -/
theorem Good.sent (fs : List Frame) (bs : List UInt8) {c : Channel} {st1 : Sockets ρ C U} {r : Int}
    (hreading : (w.st.phase u).reading = none) (hst : w'.st = st1.setPhase u (.ret r))
    (hphase : st1.phase = w.st.phase) (hself : st1.channel d = c)
    (hothers : ∀ d', d' ≠ d → st1.channel d' = w.st.channel d') (hkeeps : w.st.Keeps st1)
    (hwf : c.WF) (hcontents : c.contents = (w.st.channel d).contents ++ bs)
    (hraw : ∀ d', d' ≠ d → w'.raw d' = w.raw d')
    (hframes : w'.raw d = false → w.raw d = false ∧ framesBytes fs = framesBytes (frames d) ++ bs)
    (hheld : ∀ f ∈ fs, ∀ r ∈ f.rights, st1.Held N d r) (hfloor : st1.Floor fun r =>
      1 + underWay (update frames d fs) (update cur u []) r) :
    Good N (update frames d fs) (update cur u []) w' := by
  subst hself
  refine h.next hst hphase hothers hraw hkeeps hwf (by rw [hreading]; nofun) nofun ?_ rfl hheld
    nofun hfloor
  exact (h.queue d).append hphase (by rw [hreading]; nofun) nofun hcontents hframes

variable (hw : Advanced hasAcquire w u w')

include hw

/-- A plain `send`. -/
theorem Good.step_send {bs : List UInt8} {blocking : Bool} (hp : w.st.phase u = .send d bs blocking) :
    ∃ frames' cur', Good N frames' cur' w' := by
  have hreading : (w.st.phase u).reading = none := by rw [hp]; rfl
  -- without room or a reader the channel is as before
  have hstay : ¬ (w.st.channel d).Accepts bs → w'.raw = w.raw := by
    intro hno
    apply hw.raw_eq
    rw [hp]
    exact fun d' ht => hno ht.2
  have hst := hw.st
  unfold advance at hst
  simp only [hp] at hst
  rcases Channel.sendBytes_accepts (h.wf d) bs with
    ⟨hno, ⟨r, hsend⟩ | hsend⟩ | ⟨haccepts, c, n, hsend, -, hwf, hcontents⟩
  · rw [hsend] at hst
    exact ⟨_, _, h.idle_move d hreading hst (hstay hno) rfl rfl rfl⟩
  · rw [hsend] at hst
    by_cases hblocking : blocking
    · simp only [hblocking, if_true] at hst
      obtain rfl : w' = w := Watched.ext hst (hstay hno)
      exact ⟨frames, cur, h⟩
    · simp only [hblocking] at hst
      exact ⟨_, _, h.idle_move d hreading hst (hstay hno) rfl rfl rfl⟩
  -- from now on the direction is raw
  rw [hsend] at hst
  refine ⟨_, _, h.sent [] (bs.take n) hreading hst setChannel_phase
    setChannel_self (fun d' hd => setChannel_of_ne hd)
    (Sockets.Keeps.refl w.st) hwf hcontents ?_ ?_ (fun f hf => by cases hf) ?_⟩
  · intro d' hd
    rw [hw.raw, hp]
    simp [Phase.Taints, Ne.symm hd]
  · intro hfalse
    rw [hw.raw, hp] at hfalse
    simp [Phase.Taints, haccepts] at hfalse
  · refine h.floor.mono fun r => Nat.add_le_add_left (h.underWay_le ?_) 1
    simp

/-- A `sendmsg` with its frame ready. -/
theorem Good.step_sendFrame {frame : List UInt8} {payloadLen : Nat} {blocking : Bool}
    (hp : w.st.phase u = .sendFrame d frame payloadLen rights blocking) :
    ∃ frames' cur', Good N frames' cur' w' := by
  have hreading : (w.st.phase u).reading = none := by rw [hp]; rfl
  obtain ⟨hrights, hframe⟩ : rights = cur u ∧
      (payloadLen < 2 ^ 32 → ∃ f : Frame, f.rights = rights ∧ frame = f.bytes) := by
    have hunit := h.unit u
    rwa [hp] at hunit
  have hst := hw.st
  unfold advance at hst
  simp only [hp] at hst
  -- a call that ends without a change of the channel gives its references back
  have hback : ∀ sent : Int, w'.st = w.st.finishSend u rights payloadLen frame.length sent →
      w'.raw = w.raw → ∃ frames' cur', Good N frames' cur' w' := by
    intro sent hst hraw
    have hhold : w.st.Floor fun r =>
        (1 + underWay frames (update cur u []) r) + rights.count r := by
      refine h.floor.mono fun r => ?_
      have hdrop := h.underWay_drop d u r
      rw [hrights]
      omega
    obtain ⟨st2, r, hfinish, hphase, hchannel, hsame, hfloor⟩ :=
      finishSend_spec (fun r => Nat.le_add_right 1 _) hhold
    rw [hfinish] at hst
    exact ⟨_, _, h.retable d hreading [] hst hraw hphase hchannel hsame.keeps hfloor rfl rfl
      fun d' hd => by cases hd⟩
  have hstay : ¬ (w.st.channel d).Accepts frame → w'.raw = w.raw := by
    intro hno
    apply hw.raw_eq
    rw [hp]
    exact fun d' ht => hno ht.2.1
  rcases Channel.sendBytes_accepts (h.wf d) frame with
    ⟨hno, ⟨r, hsend⟩ | hsend⟩ | ⟨haccepts, c, n, hsend, hmin, hwf, hcontents⟩
  · rw [hsend] at hst
    exact hback r hst (hstay hno)
  · rw [hsend] at hst
    by_cases hblocking : blocking
    · simp only [hblocking, if_true] at hst
      obtain rfl : w' = w := Watched.ext hst (hstay hno)
      exact ⟨frames, cur, h⟩
    · exact hback _ (hst.trans (if_neg hblocking)) (hstay hno)
  rw [hsend] at hst
  simp only at hst
  have hraw : ∀ d', d' ≠ d → w'.raw d' = w.raw d' := by
    intro d' hd
    rw [hw.raw, hp]
    simp [Phase.Taints, Ne.symm hd]
  by_cases hwhole : frame.length ≤ (w.st.channel d).capacity - (w.st.channel d).used ∧
      payloadLen < 2 ^ 32
  · -- the whole frame is in the channel
    obtain ⟨f, hfrights, hfbytes⟩ := hframe hwhole.2
    have hall : n = frame.length := by omega
    have hst' : w'.st = (w.st.setChannel d c).setPhase u (.ret (isize payloadLen)) := by
      rw [hst, hall]
      unfold finishSend
      rw [if_neg (by omega), if_neg (by omega)]
    rw [hall, take_length] at hcontents
    refine ⟨_, _, h.sent (frames d ++ [f]) frame hreading hst' setChannel_phase
      setChannel_self (fun d' hd => setChannel_of_ne hd)
      (Sockets.Keeps.refl w.st) hwf hcontents hraw ?_ ?_ ?_⟩
    · intro hfalse
      rw [hw.raw] at hfalse
      refine ⟨by simpa using (Bool.or_eq_false_iff.mp hfalse).1, ?_⟩
      simp [framesBytes, hfbytes]
    · intro f' hf' r hr
      rcases mem_append.mp hf' with hf' | hf'
      · exact h.heldFrames d f' hf' r hr
      · obtain rfl := mem_singleton.mp hf'
        rw [hfrights, hrights] at hr
        exact h.heldCur u d (by rw [hp]; rfl) r hr
    · refine h.floor.mono fun r => Nat.add_le_add_left (h.underWay_le ?_) 1
      simp [count_append, hfrights, hrights]
  -- from now on the direction is raw
  have hhold : (w.st.setChannel d c).Floor fun r =>
      (1 + underWay (update frames d []) (update cur u []) r) +
        rights.count r := by
    refine h.floor.mono fun r => ?_
    have hdrop := h.underWay_update d [] u [] r
    simp only [flatMap_nil, count_nil] at hdrop
    rw [hrights]
    omega
  obtain ⟨st2, r, hfinish, hphase, hchannel, hsame, hfloor⟩ :=
    finishSend_spec (fun r => Nat.le_add_right 1 _) hhold
  rw [hfinish] at hst
  refine ⟨_, _, h.sent [] (frame.take n) hreading hst hphase
    (by rw [hchannel, setChannel_self])
    (fun d' hd => by rw [hchannel, setChannel_of_ne hd])
    hsame.keeps hwf hcontents hraw ?_ (fun f hf => by cases hf) hfloor⟩
  intro hfalse
  rw [hw.raw, hp] at hfalse
  have hcut : (w.st.channel d).capacity - (w.st.channel d).used < frame.length ∨
      2 ^ 32 ≤ payloadLen := by omega
  simp only [Phase.Taints, true_and, haccepts, hcut, decide_true, Bool.or_true] at hfalse
  cases hfalse

/-! ## Receiving -/

omit hw in
/-- A call reads on in a frame, or starts one. -/
theorem Good.read (fs : List Frame) (rs : List FrameRight)
    {c : Channel} {p : Phase (C × Bool)} {part rest : List UInt8}
    (hst : w'.st = (w.st.setChannel d c).setPhase u p) (hraw : w'.raw = w.raw) (hwf : c.WF)
    (hbefore : ∀ d', (w.st.phase u).reading = some d' → d' = d)
    (hothers : ∀ v, v ≠ u → (w.st.phase v).reading ≠ some d)
    (hcontents : c.contents = part ++ rest) (hrest : w.raw d = false → rest = framesBytes fs)
    (hreading : p.reading = some d) (hpart : PartOf rs part p)
    (hheldFrames : ∀ f ∈ fs, ∀ r ∈ f.rights, w.st.Held N d r) (hheldCur : ∀ r ∈ rs, w.st.Held N d r)
    (hcount : ∀ r, (fs.flatMap Frame.rights).count r + rs.count r ≤
      ((frames d).flatMap Frame.rights).count r + (cur u).count r) :
    Good N (update frames d fs) (update cur u rs) w' := by
  refine h.next hst setChannel_phase (fun d' hd => setChannel_of_ne hd) (fun d' _ => by rw [hraw])
    (Sockets.Keeps.refl w.st) (by rwa [setChannel_self]) hbefore ?_ ?_ ?_ hheldFrames ?_
    (h.floor.mono fun r => Nat.add_le_add_left (h.underWay_le (hcount r)) 1)
  · intro d' hd
    rw [hreading] at hd
    cases hd
    exact ⟨rfl, hothers⟩
  · refine ⟨part, rest, by rw [setPhase_channel, setChannel_self, hcontents],
      by rw [hraw]; exact hrest, fun v hv => ?_, fun hno => absurd ?_ (hno u)⟩
    · by_cases hvu : v = u
      · rw [hvu, setPhase_self, update_self]
        exact hpart
      · rw [setPhase_of_ne hvu] at hv
        exact absurd hv (hothers v hvu)
    · rw [setPhase_self]
      exact hreading
  · cases p <;> first | exact trivial | cases hreading
  · intro d' hd
    have hdd : d' = d := by
      cases p <;> cases hreading <;> cases hd <;> rfl
    rw [hdd]
    exact hheldCur

/-- The same in the middle of a frame: the rights stay the same. -/
theorem Good.read_on {q : Phase (C × Bool)} (hp : w.st.phase u = q) (hu : q.reading = some d)
    (htaint : ∀ d', ¬ q.Taints w.st.channel d') (hgoes : ∀ part rest, PartOf (cur u) part q →
      (w.st.channel d).contents = part ++ rest → ∃ c p part', c.WF ∧ c.contents = part' ++ rest ∧
        (w.st.put d (w.st.channel d) u q).advance hasAcquire u = w.st.put d c u p ∧
        p.reading = some d ∧ PartOf (cur u) part' p) : Good N frames cur w' := by
  subst hp
  have hcarry : (w.st.phase u).carrying = some d := by
    cases hp : w.st.phase u <;> rw [hp] at hu <;> first | exact hu | cases hu
  obtain ⟨part, rest, hcontents, hrest, hpart, hothers⟩ := h.reader hu
  obtain ⟨c, p, part', hwf, hafter, hadvance, hreading, hpart'⟩ := hgoes part rest hpart hcontents
  rw [put_self rfl] at hadvance
  have hgood := h.read (frames d) (cur u) (hw.st.trans hadvance) (hw.raw_eq htaint) hwf
    (fun d' hd => Option.some.inj (hd.symm.trans hu)) hothers hafter hrest hreading hpart'
    (h.heldFrames d) (h.heldCur u d hcarry) (fun r => Nat.le_refl _)
  rwa [update_eq_self, update_eq_self] at hgood

/-- The start of a frame. -/
theorem Good.step_recvHeader (hp : w.st.phase u = .recvHeader d call)
    (hcareful : w.Careful (.advance u)) : ∃ frames' cur', Good N frames' cur' w' := by
  have hnotReading : (w.st.phase u).reading = none := by rw [hp]; rfl
  have hraw : w'.raw = w.raw := by
    apply hw.raw_eq
    rw [hp]
    exact fun d' ht => ht
  have hst := hw.st
  unfold advance at hst
  simp only [hp] at hst
  by_cases hempty : (w.st.channel d).used = 0
  · -- nothing to read
    rcases Channel.recvBytes_cases (h.wf d) 8 with
      ⟨hrecv, -⟩ | ⟨hrecv, -, -⟩ | ⟨c, -, -, hne, -⟩
    · rw [hrecv] at hst
      exact ⟨_, _, h.idle_move d hnotReading hst hraw rfl rfl rfl⟩
    · rw [hrecv] at hst
      by_cases hblocking : call.blocking
      · obtain rfl : w' = w := Watched.ext (hst.trans (if_pos hblocking)) hraw
        exact ⟨frames, cur, h⟩
      · exact ⟨_, _, h.idle_move d hnotReading (hst.trans (if_neg hblocking)) hraw rfl rfl rfl⟩
    · exact absurd (Channel.contents_eq_nil.mpr hempty) hne
  -- the queue is not raw and no one else reads, so it begins with a whole frame
  obtain ⟨hnotRaw, hnone⟩ : w.raw d = false ∧ ∀ v, (w.st.phase v).reading ≠ some d := by
    have hstart : (w.st.phase u).StartsWhere w.st.channel fun d =>
        w.raw d = false ∧ ∀ v, (w.st.phase v).reading ≠ some d := hcareful
    rw [hp] at hstart
    exact hstart hempty
  obtain ⟨part, rest, hcontents, hrest, -, hpart⟩ := h.queue d
  rw [hpart hnone, nil_append, hrest hnotRaw] at hcontents
  obtain ⟨f, fs, hframes⟩ : ∃ f fs, frames d = f :: fs := by
    cases hframes : frames d with
    | nil =>
      rw [hframes] at hcontents
      exact absurd (Channel.contents_eq_nil.mp hcontents) hempty
    | cons f fs => exact ⟨f, fs, rfl⟩
  have hbytes : (w.st.channel d).contents = f.bytes ++ framesBytes fs := by
    rw [hcontents, hframes, framesBytes, flatMap_cons]
  obtain ⟨c, hwf, hafter, hadvance⟩ := advance_recvHeader hasAcquire w.st u d call (h.wf d) hbytes
  rw [put_self hp] at hadvance
  have hst : w'.st = _ := hw.st.trans hadvance
  have hheld : ∀ f' ∈ f :: fs, ∀ r ∈ f'.rights, w.st.Held N d r := by
    rw [← hframes]
    exact h.heldFrames d
  have hcount : ∀ r, (fs.flatMap Frame.rights).count r + f.rights.count r ≤
      ((frames d).flatMap Frame.rights).count r + (cur u).count r := by
    intro r
    rw [hframes, flatMap_cons, count_append]
    omega
  have hbefore : ∀ d', (w.st.phase u).reading = some d' → d' = d := by
    intro d' hd
    rw [hnotReading] at hd
    cases hd
  refine ⟨_, _, h.read fs f.rights hst hraw hwf hbefore (fun v _ => hnone v) hafter
    (fun _ => rfl) ?_ ?_ (fun f' hf' => hheld f' (mem_cons_of_mem _ hf'))
    (hheld f mem_cons_self) hcount⟩
  · split <;> rfl
  split
  · next hpos => exact ⟨rfl, hpos, f.payload, f.short, rfl⟩
  next hzero =>
  have hnil : f.rights = [] := length_eq_zero_iff.mp (by omega)
  refine ⟨rfl, f.payload, f.short, ?_⟩
  rw [Frame.afterHeader, hnil, flatMap_nil, nil_append]

/-- The rights of a frame. -/
theorem Good.step_recvRights {count : Nat} (hp : w.st.phase u = .recvRights d call count) :
    Good N frames cur w' := by
  refine h.read_on hw hp rfl (fun d' ht => ht) ?_
  intro part rest hpart hcontents
  obtain ⟨rfl, hpos, payload, hshort, rfl⟩ := hpart
  rw [append_assoc] at hcontents
  obtain ⟨c, hwf, hafter, hadvance⟩ :=
    advance_recvRights hasAcquire w.st u d call hpos (h.wf d) hcontents
  exact ⟨c, _, _, hwf, hafter, hadvance, rfl, rfl, payload, hshort, rfl⟩

/-- The length of the payload. -/
theorem Good.step_recvLength (hp : w.st.phase u = .recvLength d call rights) :
    Good N frames cur w' := by
  refine h.read_on hw hp rfl (fun d' ht => ht) ?_
  intro part rest hpart hcontents
  obtain ⟨hrights, payload, hshort, rfl⟩ := hpart
  obtain ⟨c, hwf, hafter, hadvance⟩ :=
    advance_recvLength hasAcquire w.st u d call rights hshort (h.wf d) hcontents
  exact ⟨c, _, _, hwf, hafter, hadvance, rfl, hrights, rfl⟩

/-- A vector of the payload buffer. -/
theorem Good.step_scatter_cons {v : IoVec} {iov : List IoVec} {remaining : Nat}
    {data : List UInt8} (hp : w.st.phase u = .scatter d call rights (v :: iov) remaining data) :
    Good N frames cur w' := by
  refine h.read_on hw hp rfl (fun d' ht => ht) ?_
  intro part rest hpart hcontents
  obtain ⟨hrights, rfl⟩ := hpart
  obtain ⟨c, hwf, hafter, hadvance⟩ :=
    advance_scatter hasAcquire w.st u d call rights v iov data (h.wf d) hcontents
  exact ⟨c, _, _, hwf, hafter, hadvance, rfl, hrights, length_drop⟩

/-- The end of the payload: what is left of it stays in the channel. -/
theorem Good.step_scatter_nil {remaining : Nat} {data : List UInt8}
    (hp : w.st.phase u = .scatter d call rights [] remaining data) :
    ∃ frames' cur', Good N frames' cur' w' := by
  have hu : (w.st.phase u).reading = some d := by rw [hp]; rfl
  have hst := hw.st
  unfold advance at hst
  simp only [hp] at hst
  obtain ⟨part, rest, hcontents, hrest, hpart, hothers⟩ := h.reader hu
  rw [hp] at hpart
  obtain ⟨hrights, hlen⟩ := hpart
  -- the call either keeps its references for the transfer or drops them
  obtain ⟨p, rs, hst', hnotReading, hunit, hcarry, hle⟩ : ∃ p rs, w'.st = w.st.setPhase u p ∧
      p.reading = none ∧ UnitOk rs p ∧
      (∀ d', p.carrying = some d' → ∀ r ∈ rs, w.st.Held N d' r) ∧
      ∀ r, rs.count r ≤ (cur u).count r := by
    split at hst
    · exact ⟨_, [], hst, rfl, rfl, (fun d' hd => nomatch hd), fun r => by simp⟩
    · refine ⟨_, cur u, hst, rfl, hrights, fun d' hd => ?_, fun r => Nat.le_refl _⟩
      obtain rfl : d = d' := Option.some.inj hd
      exact h.heldCur u d (by rw [hp]; rfl)
  refine ⟨update frames d (frames d), update cur u rs,
    h.next hst' rfl (fun _ _ => rfl) ?_ (Sockets.Keeps.refl w.st) (h.wf d)
      (fun d' hd => Option.some.inj (hd.symm.trans hu)) (by rw [hnotReading]; nofun) ?_ hunit
      (h.heldFrames d) hcarry ?_⟩
  · intro d' hd
    rw [hw.raw, hp]
    simp [Phase.Taints, Ne.symm hd]
  · refine ⟨[], part ++ rest, hcontents, ?_, ?_, fun _ => rfl⟩
    · intro hfalse
      rw [hw.raw, hp, Bool.or_eq_false_iff, decide_eq_false_iff_not] at hfalse
      have hdone : ¬ 0 < remaining := fun hpos => hfalse.2 ⟨rfl, hpos⟩
      have hnil : part = [] := length_eq_zero_iff.mp (by omega)
      rw [hnil, nil_append]
      exact hrest hfalse.1
    intro v hv
    by_cases hvu : v = u
    · rw [hvu, setPhase_self, hnotReading] at hv
      cases hv
    · rw [setPhase_of_ne hvu] at hv
      exact absurd hv (hothers v hvu)
  · refine h.floor.mono fun r => Nat.add_le_add_left (h.underWay_le ?_) 1
    have := hle r
    omega

/-! ## Transferring -/

omit hw in
/-- The transfer of one right. -/
theorem Good.transfer_right {r : FrameRight} {rest : List FrameRight} (hcur : cur u = r :: rest)
    (d : C × Bool) (realm : UInt64) (hasAcquire : ρ → Bool) :
    ((w.st.transferRight hasAcquire realm r).1.Floor fun r' =>
        1 + underWay frames (update cur u rest) r') ∧
      w.st.Keeps (w.st.transferRight hasAcquire realm r).1 ∧
      ∀ r' e', (w.st.transferRight hasAcquire realm r).1.found r' = some e' →
        w.st.found r' = none → r'.srcRealm = realm ∧
          ∃ e, w.st.found r = some e ∧ e.transferable ∧ e'.resource = e.resource := by
  have hcount : ∀ r', underWay frames (update cur u rest) r' +
      (if r' = r then 1 else 0) = underWay frames cur r' := by
    intro r'
    have hupdate := h.underWay_update d (frames d) u rest r'
    rw [update_eq_self, hcur, count_cons] at hupdate
    by_cases hr : r' = r
    · subst hr
      simp only [beq_self_eq_true, if_true] at hupdate ⊢
      omega
    · simp only [beq_eq_false_iff_ne.mpr (Ne.symm hr), hr, if_false, Bool.false_eq_true] at hupdate ⊢
      omega
  refine transferRight_spec (fun r' => Nat.le_add_right 1 _) ?_ ?_
  · intro r'
    by_cases hzero : underWay frames (update cur u rest) r' = 0
    · exact .inl (by simp only [hzero])
    · refine .inr (h.found_of_underWay ?_)
      have := hcount r'
      omega
  · refine h.floor.mono fun r' => ?_
    have := hcount r'
    omega

/-- A right is transferred, or the call returns. -/
theorem Good.step_transfer {data : List UInt8} {hids : List UInt64}
    (hp : w.st.phase u = .transfer d call rights data hids) :
    ∃ frames' cur', Good N frames' cur' w' := by
  have hreading : (w.st.phase u).reading = none := by rw [hp]; rfl
  have hraw : w'.raw = w.raw := by
    apply hw.raw_eq
    rw [hp]
    exact fun d' ht => ht
  have hrights : rights = cur u := by
    have hunit := h.unit u
    rwa [hp] at hunit
  have hst := hw.st
  unfold advance at hst
  simp only [hp] at hst
  cases rights with
  | nil => exact ⟨_, _, h.idle_move d hreading hst hraw rfl rfl rfl⟩
  | cons r rest =>
    obtain ⟨hfloor, hkeeps, -⟩ := h.transfer_right hrights.symm d call.realm hasAcquire
    refine ⟨_, _, h.retable d hreading rest hst hraw (transferRight_phase ..)
      (transferRight_channel ..) hkeeps hfloor rfl rfl fun d' hd r' hr' => ?_⟩
    obtain rfl : d = d' := Option.some.inj hd
    have hheld : w.st.Held N d r' :=
      h.heldCur u d (by rw [hp]; rfl) r' (hrights ▸ mem_cons_of_mem r hr')
    exact hheld.mono hkeeps

end Steps

end Vespera.Ipc
