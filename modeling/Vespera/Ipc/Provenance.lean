import Vespera.Ipc.RightsSteps

/-! # Handles cannot be forged, as long as only frames are parsed

The results about `recvmsg` and handles:

* `Sockets.noNew_step`: only the transfer at the end of a `recvmsg` adds an entry to a table;
* `Good.step`: under `Watched.Careful` every step keeps the invariant;
* `Sockets.handles_not_forged`: in a careful run every new entry is of a resource that a
  `sendmsg` in the same direction had named, and that its realm then held as a transferable
  handle;
* `Sockets.forged_handle_installed`: without that condition a realm gets a handle of another one
  by writing a frame with a plain `send`.
-/

namespace Vespera.Ipc

open Function Lib Realms HandleTable Sockets Watched

variable {ρ C U : Type}

/-! ## Which steps add entries -/

/-- Every handle of `t'` is one of `t`. -/
def TableNoNew (t t' : HandleTable ρ) : Prop := ∀ k, (t'.lookup k).isSome → (t.lookup k).isSome

theorem tableNoNew_acquire {t : HandleTable ρ} (hid : UInt64) : TableNoNew t (t.acquire hid) := by
  intro k hk
  cases hfound : t.lookup hid with
  | none => rwa [acquire_of_lookup_none hfound] at hk
  | some e =>
    rw [lookup_acquire hfound] at hk
    split at hk
    · next heq => simp [heq, hfound]
    · exact hk

theorem tableNoNew_release (t : HandleTable ρ) (hid : UInt64) : TableNoNew t (t.release hid).1 := by
  intro k hk
  cases hfound : t.lookup hid with
  | none => rwa [release_of_lookup_none hfound] at hk
  | some e =>
    by_cases hcount : 2 ≤ e.refcount
    · rw [lookup_release hfound hcount] at hk
      split at hk
      · next heq => simp [heq, hfound]
      · exact hk
    -- the entry goes away
    unfold release at hk
    rw [hfound] at hk
    simp only [show e.refcount - 1 = 0 by omega, if_true] at hk
    obtain ⟨e', he'⟩ := Option.isSome_iff_exists.mp hk
    obtain ⟨hlt, hentry, hhid⟩ := lookup_eq_some.mp he'
    have hslot : slotOf k ≠ slotOf hid := by
      intro heq
      rw [heq, setSlot_entries_self] at hentry
      cases hentry
    rw [setSlot_entries_of_ne hslot] at hentry
    rw [lookup_eq_some.mpr ⟨hlt, hentry, hhid⟩]
    rfl

theorem tableNoNew_unwindRights (hasAcquire : ρ → Bool) (rs : List FrameRight)
    (t : HandleTable ρ) : TableNoNew t (unwindRights hasAcquire t rs) := by
  induction rs generalizing t with
  | nil => exact fun k hk => hk
  | cons r rs ih =>
    intro k hk
    unfold unwindRights at hk
    split at hk
    · split at hk
      · exact tableNoNew_release t r.srcHid k (ih _ k hk)
      · exact ih t k hk
    · exact ih t k hk

theorem tableNoNew_collectRights (hasAcquire : ρ → Bool) (realm : UInt64) (items : List CmsgItem)
    (t : HandleTable ρ) (acc : List FrameRight) :
    TableNoNew t (collectRights hasAcquire realm items t acc).1 := by
  induction items generalizing t acc with
  | nil => exact fun k hk => hk
  | cons item items ih =>
    intro k hk
    cases item with
    | endless => exact hk
    | short => exact hk
    | right hid =>
      unfold collectRights at hk
      split at hk
      · exact tableNoNew_unwindRights hasAcquire acc t k hk
      split at hk
      · exact hk
      split at hk
      · exact hk
      · exact tableNoNew_acquire hid k (ih _ _ k hk)

namespace Sockets

/-- Every entry of `st'` is one of `st`. -/
def NoNew (st st' : Sockets ρ C U) : Prop := ∀ r, (st'.found r).isSome → (st.found r).isSome

theorem NoNew.refl (st : Sockets ρ C U) : NoNew st st := fun _ h => h

variable {st : Sockets ρ C U}

theorem NoNew.trans {st' st'' : Sockets ρ C U} (h : NoNew st st') (h' : NoNew st' st'') :
    NoNew st st'' := fun r hr => h r (h' r hr)

theorem NoNew.of_table {st' : Sockets ρ C U} (h : st'.table = st.table) : NoNew st st' := by
  intro r hr
  unfold found at hr ⊢
  rwa [h] at hr

theorem noNew_setTable {realm : UInt64} {t t' : HandleTable ρ}
    (ht : st.table realm = some t) (h : TableNoNew t t') : NoNew st (st.setTable realm t') := by
  intro r hr
  rw [found_setTable] at hr
  split at hr
  · next heq =>
    have hfound : st.found r = t.lookup r.srcHid := by simp [found, heq, ht]
    rw [hfound]
    exact h _ hr
  · exact hr

theorem noNew_releaseRight (st : Sockets ρ C U) (r : FrameRight) :
    NoNew st (st.releaseRight r) := by
  unfold releaseRight
  split
  · exact NoNew.refl st
  · exact noNew_setTable ‹_› (tableNoNew_release _ _)

theorem noNew_releaseRights (st : Sockets ρ C U) (rs : List FrameRight) :
    NoNew st (st.releaseRights rs) := by
  induction rs generalizing st with
  | nil => exact NoNew.refl st
  | cons r rs ih => exact (noNew_releaseRight st r).trans (ih _)

variable [DecidableEq U]

theorem noNew_finishSend {u : U} {rights : List FrameRight}
    {payloadLen frameLen : Nat} {sent : Int} :
    NoNew st (st.finishSend u rights payloadLen frameLen sent) := by
  unfold finishSend
  split
  · exact noNew_releaseRights st rights
  split
  · exact noNew_releaseRights st rights
  · exact NoNew.refl st

theorem noNew_startSendmsg [DecidableEq C] {hasAcquire : ρ → Bool} {u : U}
    {d : C × Bool} {realm : UInt64} {msg : OutMsg} {blocking mallocOk : Bool} :
    NoNew st (st.startSendmsg hasAcquire u d realm msg blocking mallocOk) := by
  unfold startSendmsg
  split
  · exact NoNew.refl st
  next t ht =>
    have hcollect := tableNoNew_collectRights hasAcquire realm msg.items t []
    have hset := noNew_setTable ht hcollect
    split
    · next t' heq =>
      rw [heq] at hset
      exact hset
    · next t' e heq =>
      rw [heq] at hset
      exact hset
    next t' rights heq =>
    rw [heq] at hset
    simp only
    split
    · exact hset
    · exact hset.trans (noNew_releaseRights _ rights)

/-- The tables change only in a `sendmsg` and in the transfer of a right. -/
theorem advance_table [DecidableEq C] {hasAcquire : ρ → Bool} {u : U}
    (hsend : ∀ d frame payloadLen rights blocking,
      st.phase u ≠ .sendFrame d frame payloadLen rights blocking)
    (htransfer : ∀ d call r rest data hids, st.phase u ≠ .transfer d call (r :: rest) data hids) :
    (st.advance hasAcquire u).table = st.table := by
  cases hp : st.phase u with
  | returned | endless => simp only [advance, hp]
  | sendFrame d frame payloadLen rights blocking =>
    exact absurd hp (hsend d frame payloadLen rights blocking)
  | transfer d call rights data hids =>
    cases rights with
    | nil => simp only [advance, hp, finishRecv, setPhase]
    | cons r rest => exact absurd hp (htransfer d call r rest data hids)
  | send | recvHeader | recvRights | recvLength | scatter =>
    simp only [advance, hp]
    repeat' split
    all_goals rfl

/-- Only the transfer of a right adds an entry. -/
theorem noNew_step [DecidableEq C] {hasAcquire : ρ → Bool} {x : Step C U}
    {r : FrameRight} (hnew : ((st.step hasAcquire x).1.found r).isSome) (hold : st.found r = none) :
    ∃ u d call r' rest data hids, x = .advance u ∧
      st.phase u = .transfer d call (r' :: rest) data hids ∧
      (st.step hasAcquire x).1.found = (st.transferRight hasAcquire call.realm r').1.found := by
  by_contra hnot
  suffices h : NoNew st (st.step hasAcquire x).1 by
    have := h r hnew
    rw [hold] at this
    cases this
  cases x with
  | send u ep bs blocking | recvmsg u ep realm msg blocking =>
    unfold step
    simp only
    split <;> exact NoNew.refl st
  | sendmsg u ep realm msg blocking mallocOk =>
    unfold step
    simp only
    split
    · exact noNew_startSendmsg
    · exact NoNew.refl st
  | advance u =>
    have hstep : (st.step hasAcquire (.advance u)).1 = st.advance hasAcquire u := rfl
    rw [hstep] at hnot ⊢
    by_cases hframe : ∃ d frame payloadLen rights blocking,
        st.phase u = .sendFrame d frame payloadLen rights blocking
    · obtain ⟨d, frame, payloadLen, rights, blocking, hp⟩ := hframe
      simp only [advance, hp]
      split
      · exact noNew_finishSend
      · split
        · exact NoNew.refl st
        · exact noNew_finishSend
      · exact noNew_finishSend
    refine NoNew.of_table (advance_table ?_ ?_)
    · intro d frame payloadLen rights blocking hp
      exact hframe ⟨d, frame, payloadLen, rights, blocking, hp⟩
    · intro d call r' rest data hids hp
      refine hnot ⟨u, d, call, r', rest, data, hids, rfl, hp, ?_⟩
      simp only [advance, hp, found_setPhase]

end Sockets

/-! ## Calls -/

theorem Sockets.Idle.reading {st : Sockets ρ C U} {u : U} (h : st.Idle u) :
    (st.phase u).reading = none ∧ (st.phase u).carrying = none := by
  unfold Sockets.Idle at h
  split at h
  · next heq =>
    rw [heq]
    exact ⟨rfl, rfl⟩
  · cases h

section Calls

variable [DecidableEq C] [DecidableEq U]
  {N : C × Bool → FrameRight → ρ → Prop} {frames : C × Bool → List Frame}
  {cur : U → List FrameRight} {w w' : Watched ρ C U} {hasAcquire : ρ → Bool} {u : U}

/-- The start of a `sendmsg`. -/
theorem Good.start_sendmsg (h : Good N frames cur w) (hidle : w.st.Idle u) {d : C × Bool}
    {realm : UInt64} {msg : OutMsg} {blocking mallocOk : Bool}
    (hst : w'.st = w.st.startSendmsg hasAcquire u d realm msg blocking mallocOk)
    (hraw : w'.raw = w.raw)
    (hnames : ∀ hid e, .right hid ∈ msg.items → w.st.found ⟨realm, hid⟩ = some e →
      e.transferable → N d ⟨realm, hid⟩ e.resource) : ∃ frames' cur', Good N frames' cur' w' := by
  obtain ⟨hreading, hcarrying⟩ := hidle.reading
  have hcur : cur u = [] := (h.unit u).eq_nil hcarrying
  have hsame : update cur u [] = cur := by rw [← hcur, update_eq_self]
  obtain ⟨st1, hfound, hphase, hchannel, ⟨p, hp, hfloor, heq⟩ |
    ⟨rs, -, hfew, hrs, hfloor, heq⟩⟩ := startSendmsg_spec realm msg
      (fun _ => Nat.le_add_right 1 _) h.floor
  · -- a call that fails here holds nothing
    refine ⟨_, _, h.retable d hreading [] (hst.trans heq) hraw hphase hchannel hfound.keeps
      (by rw [hsame]; exact hfloor) ?_ ?_ fun d' hd => ?_⟩
    all_goals rcases hp with rfl | ⟨e, rfl⟩
    all_goals first | rfl | cases hd
  have hcount : ∀ r, underWay frames (update cur u rs) r =
      underWay frames cur r + rs.count r := by
    intro r
    have hupdate := h.underWay_update d (frames d) u rs r
    rw [update_eq_self, hcur] at hupdate
    simp only [List.count_nil] at hupdate
    omega
  refine ⟨_, _, h.retable d hreading rs (hst.trans heq) hraw hphase hchannel hfound.keeps
    (hfloor.mono fun r => ?_) rfl
    ⟨rfl, fun hshort => ⟨msg.toFrame rs hfew hshort, rfl, msg.frame_eq rs hfew hshort⟩⟩ ?_⟩
  · rw [hcount]
    omega
  intro d' hd r hr
  obtain rfl : d = d' := Option.some.inj hd
  obtain ⟨hitem, rfl, e, he, htransferable⟩ := hrs r hr
  exact Sockets.Held.mono ⟨e, he, htransferable, hnames _ e hitem he htransferable⟩ hfound.keeps

omit [DecidableEq C] [DecidableEq U] in
/-- A call starts if its unit is idle. -/
theorem Good.start (h : Good N frames cur w) {st1 : Sockets ρ C U} (hraw : w'.raw = w.raw)
    (hst : w'.st = if w.st.Idle u then st1 else w.st)
    (hcall : w.st.Idle u → w'.st = st1 → ∃ frames' cur', Good N frames' cur' w') :
    ∃ frames' cur', Good N frames' cur' w' := by
  by_cases hidle : w.st.Idle u
  · exact hcall hidle (hst.trans (if_pos hidle))
  · obtain rfl : w' = w := Watched.ext (hst.trans (if_neg hidle)) hraw
    exact ⟨frames, cur, h⟩

/-- Only a step of a call can make a direction raw. -/
theorem Watched.step_raw {x : Sockets.Step C U} (hx : ∀ u, x ≠ .advance u) :
    (w.step hasAcquire x).1.raw = w.raw := by
  funext d
  cases x with
  | advance u => exact absurd rfl (hx u)
  | send | sendmsg | recvmsg => simp [Watched.step, taints]

/-- A careful step keeps the invariant, if `N` has what the step names. -/
theorem Good.step (h : Good N frames cur w) {x : Sockets.Step C U} (hcareful : w.Careful x)
    (hnames : ∀ u d realm msg blocking mallocOk hid e,
      x = .sendmsg u d realm msg blocking mallocOk → w.st.Idle u → .right hid ∈ msg.items →
      w.st.found ⟨realm, hid⟩ = some e → e.transferable → N d ⟨realm, hid⟩ e.resource) :
    ∃ frames' cur', Good N frames' cur' (w.step hasAcquire x).1 := by
  cases x with
  | advance u =>
    have hw : Advanced hasAcquire w u (w.step hasAcquire (.advance u)).1 := ⟨rfl, fun _ => rfl⟩
    generalize (w.step hasAcquire (.advance u)).1 = w' at hw
    have hstill : w.st.advance hasAcquire u = w.st →
        (∀ d, ¬ (w.st.phase u).Taints w.st.channel d) → w' = w := by
      intro hst hno
      exact Watched.ext (hw.st.trans hst) (hw.raw_eq hno)
    cases hp : w.st.phase u with
    | returned r data hids controllen | endless =>
      obtain rfl := hstill (by simp only [advance, hp]) (by rw [hp]; exact fun _ ht => ht)
      exact ⟨frames, cur, h⟩
    | send d bs blocking => exact h.step_send hw hp
    | sendFrame d frame payloadLen rights blocking => exact h.step_sendFrame hw hp
    | recvHeader d call => exact h.step_recvHeader hw hp hcareful
    | recvRights d call count => exact ⟨frames, cur, h.step_recvRights hw hp⟩
    | recvLength d call rights => exact ⟨frames, cur, h.step_recvLength hw hp⟩
    | scatter d call rights iov remaining data =>
      cases iov with
      | nil => exact h.step_scatter_nil hw hp
      | cons v iov => exact ⟨frames, cur, h.step_scatter_cons hw hp⟩
    | transfer d call rights data hids => exact h.step_transfer hw hp
  | send u ep bs blocking | recvmsg u ep realm msg blocking =>
    refine h.start (step_raw (by simp)) (apply_ite Prod.fst _ _ _) fun hidle hst => ?_
    exact ⟨_, _, h.idle_move ep hidle.reading.1 hst (step_raw (by simp)) rfl rfl rfl⟩
  | sendmsg u ep realm msg blocking mallocOk =>
    refine h.start (step_raw (by simp)) (apply_ite Prod.fst _ _ _) fun hidle hst => ?_
    exact h.start_sendmsg hidle hst (step_raw (by simp)) fun hid e =>
      hnames u ep realm msg blocking mallocOk hid e rfl hidle

end Calls

/-! ## Runs -/

section Runs

/-- New connections, no call under way, and handle tables with a reference for each entry. -/
structure Sockets.Fresh (st : Sockets ρ C U) : Prop where
  wf : ∀ d, (st.channel d).WF
  empty : ∀ d, (st.channel d).contents = []
  idle : ∀ u, st.Idle u
  counted : ∀ r e, st.found r = some e → 1 ≤ e.refcount

/-- The sockets at the start of a watch. -/
def Sockets.watched (st : Sockets ρ C U) : Watched ρ C U := ⟨st, fun _ => false⟩

theorem Sockets.Fresh.good {st : Sockets ρ C U} (h : st.Fresh)
    {N : C × Bool → FrameRight → ρ → Prop} : Good N (fun _ => []) (fun _ => []) st.watched where
  wf := h.wf
  alone u v d hu := by
    rw [show (st.watched.st.phase u).reading = none from (h.idle u).reading.1] at hu
    cases hu
  queue d := by
    refine ⟨[], [], h.empty d, fun _ => rfl, fun u hu => ?_, fun _ => rfl⟩
    rw [show (st.watched.st.phase u).reading = none from (h.idle u).reading.1] at hu
    cases hu
  unit u := by
    have hidle := h.idle u
    unfold Sockets.Idle at hidle
    split at hidle
    · next heq =>
      rw [show st.watched.st.phase u = _ from heq]
      rfl
    · cases hidle
  heldFrames d f hf := by cases hf
  heldCur u d _ r hr := by cases hr
  finiteFrames := by simp
  finiteCur := by simp
  floor := by
    intro r e he
    have hone := h.counted r e he
    simpa [underWay] using hone

variable [DecidableEq C] [DecidableEq U]

/-- In the run `xs` a unit of the right's realm has called `sendmsg` in the direction `d` with
the handle in its `SCM_RIGHTS` data, and the realm then held it as a transferable handle of
`res`. -/
def Sockets.Named (hasAcquire : ρ → Bool) (st : Sockets ρ C U) (xs : List (Sockets.Step C U))
    (d : C × Bool) (r : FrameRight) (res : ρ) : Prop :=
  ∃ (before after : List (Sockets.Step C U)) (u : U) (msg : OutMsg) (blocking mallocOk : Bool)
    (e : HandleEntry ρ),
    xs = before ++ .sendmsg u d r.srcRealm msg blocking mallocOk :: after ∧
    (final (Sockets.step hasAcquire) st before).Idle u ∧ .right r.srcHid ∈ msg.items ∧
    (final (Sockets.step hasAcquire) st before).found r = some e ∧ e.transferable = true ∧
    e.resource = res

variable {hasAcquire : ρ → Bool} {st : Sockets ρ C U}

theorem Watched.final_st (hasAcquire : ρ → Bool) (w : Watched ρ C U)
    (xs : List (Sockets.Step C U)) :
    (final (Watched.step hasAcquire) w xs).st = final (Sockets.step hasAcquire) w.st xs := by
  induction xs generalizing w with
  | nil => rfl
  | cons x xs ih => exact ih _

/-- The invariant after every careful run. -/
theorem Sockets.Fresh.good_final (h : st.Fresh) {xs : List (Sockets.Step C U)}
    (hrun : Along (Watched.step hasAcquire) Watched.Careful st.watched xs) :
    ∃ frames cur, Good (st.Named hasAcquire xs) frames cur
      (final (Watched.step hasAcquire) st.watched xs) := by
  induction xs using List.reverseRecOn with
  | nil => exact ⟨_, _, h.good⟩
  | append_singleton xs x ih =>
    rw [along_append] at hrun
    obtain ⟨hxs, hx, -⟩ := hrun
    obtain ⟨frames, cur, hgood⟩ := ih hxs
    rw [final_append, final_cons, final_nil]
    -- what was named before is named now
    have hmono : ∀ d r res, st.Named hasAcquire xs d r res →
        st.Named hasAcquire (xs ++ [x]) d r res := by
      rintro d r res ⟨before, after, u, msg, blocking, mallocOk, e, rfl, hrest⟩
      exact ⟨before, after ++ [x], u, msg, blocking, mallocOk, e, by simp, hrest⟩
    refine (hgood.mono hmono).step hx ?_
    intro u d realm msg blocking mallocOk hid e hxeq hidle hitem hfound htransferable
    have hst := final_st hasAcquire st.watched xs
    rw [hst] at hidle hfound
    exact ⟨xs, [], u, msg, blocking, mallocOk, e, by rw [hxeq], hidle, hitem, hfound,
      htransferable, rfl⟩

/-- In a careful run every handle that a step adds to a table is added by the transfer at the end
of a `recvmsg`, to the table of the receiver, and it is of a resource that a `sendmsg` in the
same direction named in its `SCM_RIGHTS` data and that its realm held as a transferable handle. -/
theorem Sockets.handles_not_forged (hfresh : st.Fresh) (xs : List (Sockets.Step C U))
    (hrun : Along (Watched.step hasAcquire) Watched.Careful st.watched xs)
    (before : List (Sockets.Step C U)) (x : Sockets.Step C U) (after : List (Sockets.Step C U))
    (hxs : xs = before ++ x :: after) (new : FrameRight) (e : HandleEntry ρ)
    (hnew : (final (Sockets.step hasAcquire) st (before ++ [x])).found new = some e)
    (hold : (final (Sockets.step hasAcquire) st before).found new = none) :
    ∃ u d call r rest data hids, x = .advance u ∧
      (final (Sockets.step hasAcquire) st before).phase u = .transfer d call (r :: rest) data hids ∧
      new.srcRealm = call.realm ∧ st.Named hasAcquire before d r e.resource := by
  subst hxs
  rw [along_append] at hrun
  obtain ⟨frames, cur, hgood⟩ := hfresh.good_final hrun.1
  rw [final_append, final_cons, final_nil] at hnew
  obtain ⟨u, d, call, r, rest, data, hids, hx, hphase, htransfer⟩ :=
    noNew_step (by rw [hnew]; rfl) hold
  refine ⟨u, d, call, r, rest, data, hids, hx, hphase, ?_⟩
  have hst := final_st hasAcquire st.watched before
  have hphase' : (final (Watched.step hasAcquire) st.watched before).st.phase u =
      .transfer d call (r :: rest) data hids := by
    rw [hst]
    exact hphase
  -- the right is one that the call holds
  have hcur : cur u = r :: rest := by
    have hunit := hgood.unit u
    rw [hphase'] at hunit
    exact hunit.symm
  obtain ⟨-, -, hadded⟩ := hgood.transfer_right hcur d call.realm hasAcquire
  obtain ⟨e₀, he₀, htransferable, hname⟩ := hgood.heldCur u d (by rw [hphase']; rfl) r
    (by rw [hcur]; exact List.mem_cons_self)
  have hfound : ((final (Watched.step hasAcquire) st.watched before).st.transferRight hasAcquire
      call.realm r).1.found new = some e := by
    rw [hst]
    exact htransfer ▸ hnew
  obtain ⟨hrealm, e₁, he₁, -, hresource⟩ := hadded new e hfound (by rw [hst]; exact hold)
  rw [he₀] at he₁
  obtain rfl := Option.some.inj he₁
  exact ⟨hrealm, hresource ▸ hname⟩

end Runs

/-! ## A frame that nobody sent -/

/-- A channel of a new connection. -/
def newChannel (capacity : Nat) : Channel where
  buf := fun _ => 0
  capacity := capacity
  head := 0
  tail := 0
  used := 0
  readerCount := 1
  writerCount := 1
  writerGeneration := 1

theorem newChannel_wf {capacity : Nat} : (newChannel capacity).WF :=
  ⟨Nat.zero_le _, fun h => h, fun _ => (Nat.zero_mod _).symm⟩

/-- The handle of a file in slot 4. -/
def fileHid : UInt64 := hidOf .file 4

/-- One connection and two units. Realm 1 has one handle, of the file 7; realm 2 has none. -/
def oneFile : Sockets Nat Unit Bool where
  channel := fun _ => newChannel 64
  table := fun realm =>
    if realm = 1 then
      some (init.setSlot 4 (some ⟨fileHid, .file, 7, 3, 1, true⟩))
    else if realm = 2 then some init else none
  phase := fun _ => .ret 0

theorem oneFile_fresh : oneFile.Fresh where
  wf _ := newChannel_wf
  empty _ := rfl
  idle u := by cases u <;> decide
  counted := by
    rintro ⟨realm, hid⟩ e he
    by_cases hone : realm = 1
    · simp only [found, oneFile, if_pos hone, Option.bind_some] at he
      obtain ⟨-, hentry, -⟩ := lookup_eq_some.mp he
      unfold setSlot at hentry
      simp only at hentry
      split at hentry
      · cases hentry
        decide
      · cases hentry
    by_cases htwo : realm = 2
    · simp only [found, oneFile, if_neg hone, if_pos htwo, Option.bind_some] at he
      obtain ⟨-, hentry, -⟩ := lookup_eq_some.mp he
      cases hentry
    · simp [found, oneFile, hone, htwo] at he

/-- Two bytes of payload and the handle of the file. -/
def fileMsg : OutMsg where
  iov := [[0x68, 0x69]]
  control := some fun i =>
    (toBytes 4 24 ++ toBytes 4 1 ++ toBytes 4 1 ++ toBytes 4 0 ++ toBytes 8 fileHid.toNat).getD i 0
  controllen := 24

/-- Realm 1 sends the file; realm 2 has read the message, up to the handle. -/
def honestRun : List (Sockets.Step Unit Bool) :=
  [.sendmsg false ((), true) 1 fileMsg true true, .advance false,
    .recvmsg true ((), false) 2 ⟨[⟨false, 16⟩], true, 24⟩ true, .advance true, .advance true,
    .advance true, .advance true, .advance true]

theorem Sockets.handles_not_forged_honest :
    ∃ u d call r rest data hids, (.advance true : Sockets.Step Unit Bool) = .advance u ∧
      (final (Sockets.step fun _ => true) oneFile honestRun).phase u =
        .transfer d call (r :: rest) data hids ∧
      (2 : UInt64) = call.realm ∧
      oneFile.Named (fun _ => true) honestRun d r 7 :=
  handles_not_forged oneFile_fresh (honestRun ++ [.advance true]) (by decide +kernel)
    honestRun (.advance true) [] rfl ⟨2, fileHid⟩ ⟨fileHid, .file, 7, 3, 1, true⟩
    (by decide +kernel) (by decide +kernel)

/-- A frame with the handle of the file, and without payload. -/
def forgedFrame : Frame := ⟨[⟨1, fileHid⟩], [], by decide, by decide⟩

/-- Realm 2 writes the frame with a plain `send` and reads it with `recvmsg`, up to the handle. -/
def forgery : List (Sockets.Step Unit Bool) :=
  [.send false ((), true) forgedFrame.bytes true, .advance false,
    .recvmsg true ((), false) 2 ⟨[], true, 24⟩ true, .advance true, .advance true, .advance true,
    .advance true]

/-- Realm 2 gets a handle of the file of realm 1, and nobody has called `sendmsg`. -/
theorem Sockets.forged_handle_installed :
    oneFile.Fresh ∧
    (final (Sockets.step fun _ => true) oneFile forgery).found ⟨2, fileHid⟩ = none ∧
    (final (Sockets.step fun _ => true) oneFile (forgery ++ [.advance true])).found ⟨2, fileHid⟩ =
      some ⟨fileHid, .file, 7, 3, 1, true⟩ ∧
    ¬ ∃ d r, oneFile.Named (fun _ => true) (forgery ++ [.advance true]) d r 7 := by
  refine ⟨oneFile_fresh, by decide +kernel, by decide +kernel, ?_⟩
  rintro ⟨d, r, before, after, u, msg, blocking, mallocOk, e, hrun, -⟩
  have hmem : Sockets.Step.sendmsg u d r.srcRealm msg blocking mallocOk ∈
      forgery ++ [.advance true] := by
    rw [hrun]
    exact List.mem_append_right _ List.mem_cons_self
  simp [forgery] at hmem

end Vespera.Ipc
