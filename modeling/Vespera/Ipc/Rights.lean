import Mathlib.Algebra.BigOperators.Finprod
import Mathlib.Data.Fintype.Prod
import Vespera.Ipc.References
import Vespera.Lib.Run
import Vespera.Lib.Sums

/-! # Where the handles of a `recvmsg` come from

`recvmsg` believes the bytes it reads: the realm and the handle of every right that it installs
come out of the channel. A plain `send` writes to the same channel, and so do the payloads of
messages, which a later `recvmsg` takes for a frame if an earlier one stopped in the middle.

`Watched` notes for each direction whether that may have happened: the direction is `raw` once a
byte of a plain `send`, a cut or oversized frame or an unread rest of a payload is in it. The
result is that nothing else goes wrong: as long as `recvmsg` starts a frame only in a direction
that is not raw, and in which no other `recvmsg` is in the middle of a frame, every handle it
installs was named by a `sendmsg` in that direction.

The invariant `Good` has two halves. The bytes of a direction are the rest of a frame that is
being read, followed by whole frames. And every right in a frame or in a call under way has a
reference of its own to the entry it names, so that the entry stays what it was when `sendmsg`
looked it up.
-/

namespace Vespera.Ipc

open Function Lib

/-- A sum in which one term has changed. -/
theorem finsum_update_add {ι β : Type} [DecidableEq ι] (g : ι → β) (i : ι) (b : β) (f : β → Nat)
    (hg : (support fun j => f (g j)).Finite) :
    finsum (fun j => f (update g i b j)) + f (g i) = finsum (fun j => f (g j)) + f b := by
  -- both sums are over the old terms and the changed one
  let s : Finset ι := insert i hg.toFinset
  have hi : i ∈ s := Finset.mem_insert_self i _
  have hnew : (support fun j => f (update g i b j)) ⊆ s := by
    intro j hj
    by_cases hji : j = i
    · exact hji ▸ hi
    · rw [mem_support, update_of_ne hji] at hj
      exact Finset.mem_insert_of_mem (hg.mem_toFinset.mpr hj)
  have hold : (support fun j => f (g j)) ⊆ s := fun j hj =>
    Finset.mem_insert_of_mem (hg.mem_toFinset.mpr hj)
  have hsum := sum_change (f := fun j => f (g j)) (g := fun j => f (update g i b j)) hi
    fun j _ hj => by rw [update_of_ne hj]
  rw [finsum_eq_sum_of_support_subset _ hnew, finsum_eq_sum_of_support_subset _ hold]
  rwa [update_self] at hsum

/-- Changing one value keeps a function empty almost everywhere. -/
theorem finite_update {ι β : Type} [DecidableEq ι] {g : ι → List β} {i : ι} {b : List β}
    (hg : {j | g j ≠ []}.Finite) : {j | update g i b j ≠ []}.Finite := by
  refine (hg.insert i).subset fun j hj => ?_
  by_cases hji : j = i
  · exact .inl hji
  · rw [Set.mem_ofPred_eq, update_of_ne hji] at hj
    exact .inr hj

/-! ## Watching the directions -/

/-- The direction of which a unit has read a part of a frame. -/
def Phase.reading {D : Type} : Phase D → Option D
  | .recvRights d _ _ | .recvLength d _ _ | .scatter d _ _ _ _ _ => some d
  | .returned .. | .endless | .send .. | .sendFrame .. | .recvHeader .. | .transfer .. => none

/-- The direction of the message whose references a unit holds. -/
def Phase.carrying {D : Type} : Phase D → Option D
  | .sendFrame d _ _ _ _ | .recvRights d _ _ | .recvLength d _ _ | .scatter d _ _ _ _ _
  | .transfer d _ _ _ _ => some d
  | .returned .. | .endless | .send .. | .recvHeader .. => none

/-- `Channel::send` moves bytes. -/
def Channel.Accepts (c : Channel) (bs : List UInt8) : Prop :=
  bs ≠ [] ∧ c.readerCount ≠ 0 ∧ c.used < c.capacity

instance (c : Channel) (bs : List UInt8) : Decidable (c.Accepts bs) :=
  inferInstanceAs (Decidable (_ ∧ _))

/-- A send takes bytes exactly where they are accepted. -/
theorem Channel.sendBytes_accepts {c : Channel} (h : c.WF) (bs : List UInt8) :
    (¬ c.Accepts bs ∧ ((∃ r, c.sendBytes bs = .stay r) ∨ c.sendBytes bs = .wait)) ∨
    c.Accepts bs ∧ ∃ c' n, c.sendBytes bs = .moved c' n ∧ n = min bs.length (c.capacity - c.used) ∧
      c'.WF ∧ c'.contents = c.contents ++ bs.take n := by
  rcases c.sendBytes_cases h bs with
    ⟨r, hsend, hwhy⟩ | ⟨hsend, -, hfull⟩ | ⟨c', n, hsend, hn, hmin, hreader, hwf, -, hcontents⟩
  · refine .inl ⟨?_, .inl ⟨r, hsend⟩⟩
    rintro ⟨hne, hreader, -⟩
    rcases hwhy with ⟨hnil, -⟩ | ⟨-, hzero, -⟩
    · exact hne hnil
    · exact hreader hzero
  · exact .inl ⟨fun haccepts => by have := haccepts.2.2; omega, .inr hsend⟩
  refine .inr ⟨⟨?_, by omega, by omega⟩, c', n, hsend, hmin, hwf, hcontents⟩
  rintro rfl
  simp at hmin
  omega

/-- The sockets, and which directions may hold something else than whole frames. -/
@[ext]
structure Watched (ρ C U : Type) where
  st : Sockets ρ C U
  raw : C × Bool → Bool

variable {ρ C U : Type}

/-- The next step of a call leaves something in the direction `d` that is not a whole frame: bytes
of a plain `send`, a frame that does not fit or that is longer than its length field can say,
or the rest of a payload. -/
def Phase.Taints {D : Type} (channel : D → Channel) (d : D) : Phase D → Prop
  | .send d' bs _ => d' = d ∧ (channel d').Accepts bs
  | .sendFrame d' frame payloadLen _ _ => d' = d ∧ (channel d').Accepts frame ∧
      ((channel d').capacity - (channel d').used < frame.length ∨ 2 ^ 32 ≤ payloadLen)
  | .scatter d' _ _ [] remaining _ => d' = d ∧ 0 < remaining
  | _ => False

instance {D : Type} [DecidableEq D] (channel : D → Channel) (d : D) (p : Phase D) :
    Decidable (p.Taints channel d) :=
  match p with
  | .send .. | .sendFrame .. | .scatter _ _ _ [] _ _ => inferInstanceAs (Decidable (_ ∧ _))
  | .scatter _ _ _ (_ :: _) _ _ | .returned .. | .endless | .recvHeader .. | .recvRights ..
  | .recvLength .. | .transfer .. => inferInstanceAs (Decidable False)

/-- The next step of a call may start a frame only where `ok` holds, if there is anything. -/
def Phase.StartsWhere {D : Type} (channel : D → Channel) (ok : D → Prop) : Phase D → Prop
  | .recvHeader d _ => (channel d).used ≠ 0 → ok d
  | _ => True

instance {D : Type} (channel : D → Channel) (ok : D → Prop) [DecidablePred ok] (p : Phase D) :
    Decidable (p.StartsWhere channel ok) :=
  match p with
  | .recvHeader .. => inferInstanceAs (Decidable (_ → _))
  | .returned .. | .endless | .send .. | .sendFrame .. | .recvRights .. | .recvLength ..
  | .scatter .. | .transfer .. => inferInstanceAs (Decidable True)

namespace Watched

/-- The directions that a step makes raw. -/
def taints [DecidableEq C] (w : Watched ρ C U) (x : Sockets.Step C U) (d : C × Bool) : Bool :=
  match x with
  | .advance u => decide ((w.st.phase u).Taints w.st.channel d)
  | .send .. | .sendmsg .. | .recvmsg .. => false

/-- A step of the sockets, watched. -/
def step [DecidableEq C] [DecidableEq U] (hasAcquire : ρ → Bool) (w : Watched ρ C U)
    (x : Sockets.Step C U) : Watched ρ C U × Unit :=
  ({ st := (w.st.step hasAcquire x).1, raw := fun d => w.raw d || w.taints x d }, ())

/-- A `recvmsg` starts to read a frame only where there are whole frames and no other call is
in the middle of one. -/
def Careful (w : Watched ρ C U) (x : Sockets.Step C U) : Prop :=
  match x with
  | .advance u => (w.st.phase u).StartsWhere w.st.channel fun d =>
      w.raw d = false ∧ ∀ v, (w.st.phase v).reading ≠ some d
  | .send .. | .sendmsg .. | .recvmsg .. => True

instance [DecidableEq C] [Fintype U] (w : Watched ρ C U) (x : Sockets.Step C U) :
    Decidable (w.Careful x) :=
  match x with
  | .advance _ => inferInstanceAs (Decidable (Phase.StartsWhere _ _ _))
  | .send .. | .sendmsg .. | .recvmsg .. => inferInstanceAs (Decidable True)

end Watched

/-! ## The invariant -/

namespace Sockets

/-- The entry that a right names is there, transferable, and of a resource with `N`. -/
def Held (st : Sockets ρ C U) (N : C × Bool → FrameRight → ρ → Prop) (d : C × Bool)
    (r : FrameRight) : Prop :=
  ∃ e, st.found r = some e ∧ e.transferable = true ∧ N d r e.resource

variable {st st' : Sockets ρ C U} {N : C × Bool → FrameRight → ρ → Prop}

theorem Held.mono {d : C × Bool} {r : FrameRight} (h : st.Held N d r) (hkeeps : st.Keeps st') :
    st'.Held N d r := by
  obtain ⟨e, hfound, htransferable, hN⟩ := h
  obtain ⟨e', hfound', heq⟩ := hkeeps r e hfound
  have htransferable' : (uncounted e').transferable = (uncounted e).transferable := by rw [heq]
  have hresource : (uncounted e').resource = (uncounted e).resource := by rw [heq]
  refine ⟨e', hfound', htransferable'.trans htransferable, ?_⟩
  exact (show e'.resource = e.resource from hresource) ▸ hN

end Sockets

/-- The bytes of a frame that the unit has still to read; `rs` are the frame's rights. -/
def PartOf {D : Type} (rs : List FrameRight) (part : List UInt8) : Phase D → Prop
  | .recvRights _ _ count => count = rs.length ∧ 0 < count ∧
      ∃ payload : List UInt8, payload.length < 2 ^ 32 ∧
        part = rs.flatMap FrameRight.bytes ++ (toBytes 4 payload.length ++ payload)
  | .recvLength _ _ rights => rights = rs ∧
      ∃ payload : List UInt8, payload.length < 2 ^ 32 ∧ part = toBytes 4 payload.length ++ payload
  | .scatter _ _ rights _ remaining _ => rights = rs ∧ part.length = remaining
  | _ => False

/-- The references that a unit holds outside of the channels. -/
def UnitOk {D : Type} (rs : List FrameRight) : Phase D → Prop
  | .sendFrame _ frame payloadLen rights _ => rights = rs ∧
      (payloadLen < 2 ^ 32 → ∃ f : Frame, f.rights = rights ∧ frame = f.bytes)
  | .transfer _ _ rights _ _ => rights = rs
  | .recvRights .. | .recvLength .. | .scatter .. => True
  | .returned .. | .endless | .send .. | .recvHeader .. => rs = []

theorem UnitOk.eq_nil {D : Type} {rs : List FrameRight} {p : Phase D} (h : UnitOk rs p)
    (hp : p.carrying = none) : rs = [] := by
  cases p <;> first | exact h | cases hp

/-- The bytes of a list of frames. -/
abbrev framesBytes (fs : List Frame) : List UInt8 := fs.flatMap Frame.bytes

/-- A direction: the rest of the frame being read, and behind it whole frames. -/
def QueueOk (st : Sockets ρ C U) (raw : Bool) (fs : List Frame) (cur : U → List FrameRight)
    (d : C × Bool) : Prop :=
  ∃ part rest, (st.channel d).contents = part ++ rest ∧
    (raw = false → rest = framesBytes fs) ∧
    (∀ u, (st.phase u).reading = some d → PartOf (cur u) part (st.phase u)) ∧
    ((∀ u, (st.phase u).reading ≠ some d) → part = [])

section Invariant

/-- How often a right is on its way: in a frame, or held by a call. -/
noncomputable def underWay (frames : C × Bool → List Frame) (cur : U → List FrameRight)
    (r : FrameRight) : Nat :=
  finsum (fun d => ((frames d).flatMap Frame.rights).count r) + finsum fun u => (cur u).count r

/-- The invariant: `frames` are the whole frames of each direction that is not raw, `cur` the
rights of the message that each unit is working on. -/
structure Good (N : C × Bool → FrameRight → ρ → Prop) (frames : C × Bool → List Frame)
    (cur : U → List FrameRight) (w : Watched ρ C U) : Prop where
  wf : ∀ d, (w.st.channel d).WF
  alone : ∀ u v d, (w.st.phase u).reading = some d → (w.st.phase v).reading = some d → u = v
  queue : ∀ d, QueueOk w.st (w.raw d) (frames d) cur d
  unit : ∀ u, UnitOk (cur u) (w.st.phase u)
  heldFrames : ∀ d, ∀ f ∈ frames d, ∀ r ∈ f.rights, w.st.Held N d r
  heldCur : ∀ u d, (w.st.phase u).carrying = some d → ∀ r ∈ cur u, w.st.Held N d r
  finiteFrames : {d | frames d ≠ []}.Finite
  finiteCur : {u | cur u ≠ []}.Finite
  floor : w.st.Floor fun r => 1 + underWay frames cur r

variable {N : C × Bool → FrameRight → ρ → Prop} {frames : C × Bool → List Frame}
  {cur : U → List FrameRight} {w : Watched ρ C U}

section

variable (h : Good N frames cur w)

include h

theorem Good.underWay_update [DecidableEq C] [DecidableEq U]
    (d : C × Bool) (fs : List Frame) (u : U) (rs : List FrameRight) (r : FrameRight) :
    underWay (update frames d fs) (update cur u rs) r +
        ((frames d).flatMap Frame.rights).count r + (cur u).count r =
      underWay frames cur r + (fs.flatMap Frame.rights).count r + rs.count r := by
  have hsupportFrames : (support fun d =>
      ((frames d).flatMap Frame.rights).count r).Finite := by
    refine h.finiteFrames.subset fun d hd hnil => ?_
    simp [hnil] at hd
  have hsupportCur : (support fun u => (cur u).count r).Finite := by
    refine h.finiteCur.subset fun u hu hnil => ?_
    simp [hnil] at hu
  have hframes := finsum_update_add frames d fs (fun fs => (fs.flatMap Frame.rights).count r)
    hsupportFrames
  have hcur := finsum_update_add cur u rs (fun rs => rs.count r) hsupportCur
  unfold underWay
  omega

/-- No more references than before. -/
theorem Good.underWay_le [DecidableEq C] [DecidableEq U] {d : C × Bool}
    {fs : List Frame} {u : U} {rs : List FrameRight} {r : FrameRight}
    (hle : (fs.flatMap Frame.rights).count r + rs.count r ≤
      ((frames d).flatMap Frame.rights).count r + (cur u).count r) :
    underWay (update frames d fs) (update cur u rs) r ≤ underWay frames cur r := by
  have hupdate := h.underWay_update d fs u rs r
  omega

/-- Dropping the rights of a message takes their references out of the floor. -/
theorem Good.underWay_drop [DecidableEq C] [DecidableEq U] (d : C × Bool) (u : U) (r : FrameRight) :
    underWay frames (update cur u []) r + (cur u).count r = underWay frames cur r := by
  have hdrop := h.underWay_update d (frames d) u [] r
  rw [update_eq_self] at hdrop
  simp only [List.count_nil] at hdrop
  omega

/-- A right that is under way names an entry. -/
theorem Good.found_of_underWay {r : FrameRight}
    (hr : underWay frames cur r ≠ 0) : (w.st.found r).isSome := by
  have hheld : ∃ d, w.st.Held N d r := by
    by_cases hframes : finsum (fun d => ((frames d).flatMap Frame.rights).count r) = 0
    · -- then a unit holds it
      have hcur : finsum (fun u => (cur u).count r) ≠ 0 := by
        unfold underWay at hr
        omega
      obtain ⟨u, hu⟩ := not_forall.mp (mt finsum_eq_zero_of_forall_eq_zero hcur)
      have hmem : r ∈ cur u := List.count_pos_iff.mp (Nat.pos_of_ne_zero hu)
      cases hcarry : (w.st.phase u).carrying with
      | none =>
        rw [(h.unit u).eq_nil hcarry] at hmem
        cases hmem
      | some d => exact ⟨d, h.heldCur u d hcarry r hmem⟩
    · obtain ⟨d, hd⟩ := not_forall.mp (mt finsum_eq_zero_of_forall_eq_zero hframes)
      have hmem := List.count_pos_iff.mp (Nat.pos_of_ne_zero hd)
      obtain ⟨f, hf, hrf⟩ := List.mem_flatMap.mp hmem
      exact ⟨d, h.heldFrames d f hf r hrf⟩
  obtain ⟨d, e, he, -⟩ := hheld
  rw [he]
  rfl

/-- The unit that is in the middle of a frame is the only one, and the queue begins with what
it has still to read. -/
theorem Good.reader {u : U} {d : C × Bool}
    (hu : (w.st.phase u).reading = some d) : ∃ part rest, (w.st.channel d).contents = part ++ rest ∧
      (w.raw d = false → rest = framesBytes (frames d)) ∧ PartOf (cur u) part (w.st.phase u) ∧
      ∀ v, v ≠ u → (w.st.phase v).reading ≠ some d := by
  obtain ⟨part, rest, hcontents, hrest, hpart, -⟩ := h.queue d
  refine ⟨part, rest, hcontents, hrest, hpart u hu, ?_⟩
  intro v hvu hv
  exact hvu (h.alone v u d hv hu)

theorem Good.mono {N' : C × Bool → FrameRight → ρ → Prop}
    (hN : ∀ d r res, N d r res → N' d r res) : Good N' frames cur w := by
  have hheld : ∀ d r, w.st.Held N d r → w.st.Held N' d r := by
    rintro d r ⟨e, he, htransferable, hres⟩
    exact ⟨e, he, htransferable, hN d r _ hres⟩
  exact { h with
    heldFrames := fun d f hf r hr => hheld d r (h.heldFrames d f hf r hr)
    heldCur := fun u d hu r hr => hheld d r (h.heldCur u d hu r hr) }

variable [DecidableEq U]

omit h in
/-- The queue of a direction after a step of a unit that reads no part of a frame there. -/
theorem QueueOk.append {st st1 : Sockets ρ C U} {raw raw' : Bool} {fs fs' : List Frame} {u : U}
    {rs : List FrameRight} {d : C × Bool} {p : Phase (C × Bool)} {bs : List UInt8}
    (h : QueueOk st raw fs cur d) (hphase : st1.phase = st.phase)
    (hbefore : (st.phase u).reading ≠ some d) (hafter : p.reading ≠ some d)
    (hcontents : (st1.channel d).contents = (st.channel d).contents ++ bs)
    (hraw : raw' = false → raw = false ∧ framesBytes fs' = framesBytes fs ++ bs) :
    QueueOk (st1.setPhase u p) raw' fs' (update cur u rs) d := by
  obtain ⟨part, rest, hsplit, hrest, hpart, hnone⟩ := h
  refine ⟨part, rest ++ bs, ?_, ?_, ?_, ?_⟩
  · rw [Sockets.setPhase_channel, hcontents, hsplit, List.append_assoc]
  · intro hfalse
    obtain ⟨hold, hbytes⟩ := hraw hfalse
    rw [hrest hold, hbytes]
  · intro v hv
    have hvu : v ≠ u := by
      rintro rfl
      rw [Sockets.setPhase_self] at hv
      exact hafter hv
    rw [Sockets.setPhase_of_ne hvu, hphase] at hv ⊢
    rw [update_of_ne hvu]
    exact hpart v hv
  refine fun hno => hnone fun v hv => hno v ?_
  rw [Sockets.setPhase_of_ne (by rintro rfl; exact hbefore hv), hphase]
  exact hv

variable [DecidableEq C]

/-- Rebuild the invariant after a step of the unit `u` in the direction `d`. -/
theorem Good.next {w' : Watched ρ C U} {u : U} {d : C × Bool}
    {st1 : Sockets ρ C U} {p : Phase (C × Bool)} {fs : List Frame} {rs : List FrameRight}
    (hst : w'.st = st1.setPhase u p) (hphase : st1.phase = w.st.phase)
    (hchannel : ∀ d', d' ≠ d → st1.channel d' = w.st.channel d')
    (hraw : ∀ d', d' ≠ d → w'.raw d' = w.raw d') (hkeeps : w.st.Keeps st1)
    (hwf : (st1.channel d).WF) (hbefore : ∀ d', (w.st.phase u).reading = some d' → d' = d)
    (hafter : ∀ d', p.reading = some d' → d' = d ∧ ∀ v, v ≠ u → (w.st.phase v).reading ≠ some d)
    (hqueue : QueueOk (st1.setPhase u p) (w'.raw d) fs (update cur u rs) d) (hunit : UnitOk rs p)
    (hheldFrames : ∀ f ∈ fs, ∀ r ∈ f.rights, st1.Held N d r)
    (hheldCur : ∀ d', p.carrying = some d' → ∀ r ∈ rs, st1.Held N d' r)
    (hfloor : st1.Floor fun r => 1 + underWay (update frames d fs) (update cur u rs) r) :
    Good N (update frames d fs) (update cur u rs) w' := by
  have hself : w'.st.phase u = p := by rw [hst, Sockets.setPhase_self]
  have hothers : ∀ v, v ≠ u → w'.st.phase v = w.st.phase v := by
    intro v hv
    rw [hst, Sockets.setPhase_of_ne hv, hphase]
  refine ⟨fun d' => ?_, fun v v' d' hv hv' => ?_, fun d' => ?_, fun v => ?_, fun d' => ?_,
    fun v d' hv r hr => ?_, finite_update h.finiteFrames, finite_update h.finiteCur,
    by rw [hst]; exact hfloor⟩
  · rw [hst, Sockets.setPhase_channel]
    by_cases hd : d' = d
    · exact hd ▸ hwf
    · exact hchannel d' hd ▸ h.wf d'
  · by_cases hvu : v = u
    · by_cases hvu' : v' = u
      · rw [hvu, hvu']
      -- the other one was already reading
      subst hvu
      obtain ⟨rfl, hreading⟩ := hafter d' (hself ▸ hv)
      rw [hothers v' hvu'] at hv'
      exact absurd hv' (hreading v' hvu')
    by_cases hvu' : v' = u
    · subst hvu'
      obtain ⟨rfl, hreading⟩ := hafter d' (hself ▸ hv')
      rw [hothers v hvu] at hv
      exact absurd hv (hreading v hvu)
    · rw [hothers v hvu] at hv
      rw [hothers v' hvu'] at hv'
      exact h.alone v v' d' hv hv'
  · rw [hst]
    by_cases hd : d' = d
    · subst hd
      rw [update_self]
      exact hqueue
    rw [update_of_ne hd, hraw d' hd]
    exact (h.queue d').append hphase (fun hu => hd (hbefore d' hu)) (fun hp => hd (hafter d' hp).1)
      (by rw [hchannel d' hd, List.append_nil]) fun hfalse => ⟨hfalse, (List.append_nil _).symm⟩
  · by_cases hvu : v = u
    · subst hvu
      rw [update_self, hself]
      exact hunit
    · rw [update_of_ne hvu, hothers v hvu]
      exact h.unit v
  · rw [hst]
    by_cases hd : d' = d
    · subst hd
      rw [update_self]
      exact hheldFrames
    · rw [update_of_ne hd]
      exact fun f hf r hr => (h.heldFrames d' f hf r hr).mono hkeeps
  · rw [hst]
    by_cases hvu : v = u
    · subst hvu
      rw [update_self] at hr
      exact hheldCur d' (hself ▸ hv) r hr
    · rw [update_of_ne hvu] at hr
      exact (h.heldCur v d' (hothers v hvu ▸ hv) r hr).mono hkeeps

end

end Invariant

end Vespera.Ipc
