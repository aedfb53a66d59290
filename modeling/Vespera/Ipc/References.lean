import Mathlib.Data.List.Count
import Vespera.Ipc.Receive

/-! # The references a message holds

`sendmsg` takes a reference to every handle of its message, and whoever ends the message's
journey gives it back. A table's entries are safe as long as each has more references than
there are messages that will give one back: `Floor n` says that the entry a right names has at
least `n` references.

Taking a reference raises the floor and giving it back lowers it, and as long as the floor does
not reach 0 no entry goes away (`releaseRights_spec`, `collectRights_spec`). A transfer adds one
entry and changes nothing else (`transferRight_spec`).
-/

namespace Vespera.Ipc

open Klib List Realms HandleTable

variable {ρ : Type} {t : HandleTable ρ} {n : UInt64 → Nat}

/-! ## One table -/

/-- An entry without its reference count. -/
def uncounted (e : HandleEntry ρ) : HandleEntry ρ := { e with refcount := 0 }

/-- `t'` has the entries of `t`, up to reference counts. -/
def SameEntries (t t' : HandleTable ρ) : Prop :=
  ∀ k, (t'.lookup k).map uncounted = (t.lookup k).map uncounted

/-- Every entry has at least this many references. -/
def TableFloor (n : UInt64 → Nat) (t : HandleTable ρ) : Prop :=
  ∀ k e, t.lookup k = some e → n k ≤ e.refcount

theorem SameEntries.refl (t : HandleTable ρ) : SameEntries t t := fun _ => rfl

theorem SameEntries.trans {t' t'' : HandleTable ρ} (h : SameEntries t t')
    (h' : SameEntries t' t'') : SameEntries t t'' := fun k => (h' k).trans (h k)

theorem TableFloor.mono {n' : UInt64 → Nat} (h : TableFloor n t)
    (hle : ∀ k, n' k ≤ n k) : TableFloor n' t := fun k e he => (hle k).trans (h k e he)

theorem acquire_spec {hid : UInt64} (h : TableFloor n t) : SameEntries t (t.acquire hid) ∧
      TableFloor (fun k => n k + if k = hid then 1 else 0) (t.acquire hid) := by
  cases hfound : t.lookup hid with
  | none =>
    rw [acquire_of_lookup_none hfound]
    refine ⟨SameEntries.refl t, fun k e he => ?_⟩
    have hk : k ≠ hid := by
      rintro rfl
      rw [hfound] at he
      cases he
    simpa [hk] using h k e he
  | some e =>
    constructor
    · intro k
      rw [lookup_acquire hfound]
      split
      · subst k
        rw [hfound]
        rfl
      · rfl
    intro k e' he'
    rw [lookup_acquire hfound] at he'
    split at he'
    · cases he'
      subst k
      simpa using h hid e hfound
    · simpa [‹¬ k = hid›] using h k e' he'

/-- Giving a reference back keeps the entry if there is another reference. -/
theorem release_spec {hid : UInt64} (hn : ∀ k, 1 ≤ n k)
    (h : TableFloor (fun k => n k + if k = hid then 1 else 0) t) :
    SameEntries t (t.release hid).1 ∧ TableFloor n (t.release hid).1 := by
  cases hfound : t.lookup hid with
  | none =>
    rw [release_of_lookup_none hfound]
    exact ⟨SameEntries.refl t, h.mono fun k => Nat.le_add_right _ _⟩
  | some e =>
    have hcount : n hid + 1 ≤ e.refcount := by simpa using h hid e hfound
    have htwo : 2 ≤ e.refcount := by
      have := hn hid
      omega
    constructor
    · intro k
      rw [lookup_release hfound htwo]
      split
      · subst k
        rw [hfound]
        rfl
      · rfl
    intro k e' he'
    rw [lookup_release hfound htwo] at he'
    split at he'
    · cases he'
      subst k
      show n hid ≤ e.refcount - 1
      omega
    · exact (Nat.le_add_right _ _).trans (h k e' he')

/-! ## Collecting the rights of a message -/

theorem count_mk_cons (realm k : UInt64) (r : FrameRight) (hr : r.srcRealm = realm)
    (rs : List FrameRight) :
    (r :: rs).count ⟨realm, k⟩ = rs.count ⟨realm, k⟩ + if k = r.srcHid then 1 else 0 := by
  obtain ⟨realm', hid⟩ := r
  subst hr
  rw [count_cons]
  by_cases hk : k = hid
  · simp [hk]
  · simp [hk, Ne.symm hk]

/-- A message with too many handles gives back no more than it took. -/
theorem unwindRights_spec (hasAcquire : ρ → Bool) {realm : UInt64}
    (hn : ∀ k, 1 ≤ n k) {rs : List FrameRight} (hrs : ∀ r ∈ rs, r.srcRealm = realm)
    (h : TableFloor (fun k => n k + rs.count ⟨realm, k⟩) t) :
    SameEntries t (unwindRights hasAcquire t rs) ∧ TableFloor n (unwindRights hasAcquire t rs) := by
  induction rs generalizing t with
  | nil => exact ⟨SameEntries.refl t, by simpa [unwindRights] using h⟩
  | cons r rs ih =>
    have hrs' : ∀ r' ∈ rs, r'.srcRealm = realm := fun r' hr' => hrs r' (mem_cons_of_mem _ hr')
    have hfloor : TableFloor (fun k => n k + rs.count ⟨realm, k⟩ + if k = r.srcHid then 1 else 0)
        t := h.mono fun k => by
      rw [count_mk_cons realm k r (hrs r mem_cons_self) rs, Nat.add_assoc]
    have hskip := ih hrs' (hfloor.mono fun k => Nat.le_add_right _ _)
    unfold unwindRights
    split
    · split
      · have hrelease := release_spec (fun k => (hn k).trans (Nat.le_add_right _ _)) hfloor
        have hrest := ih hrs' hrelease.2
        exact ⟨hrelease.1.trans hrest.1, hrest.2⟩
      · exact hskip
    · exact hskip

/-- What `collectRights` leaves: either the rights, with a reference for each, or an error. -/
def CollectOk (realm : UInt64) (items : List CmsgItem) (t : HandleTable ρ) (n : UInt64 → Nat)
    (t' : HandleTable ρ) : Collected → Prop
  | .rights rs => TableFloor (fun k => n k + rs.count ⟨realm, k⟩) t' ∧ rs.length ≤ maxRights ∧
      ∀ r ∈ rs, r.srcRealm = realm ∧ .right r.srcHid ∈ items ∧
        ∃ e, t.lookup r.srcHid = some e ∧ e.transferable = true
  | .error _ | .endless => TableFloor n t'

theorem collectRights_spec (hasAcquire : ρ → Bool) (realm : UInt64)
    (hn : ∀ k, 1 ≤ n k) {all : List CmsgItem} {t0 : HandleTable ρ} (items : List CmsgItem)
    (hitems : ∀ i ∈ items, i ∈ all) (acc : List FrameRight) (hlen : acc.length ≤ maxRights)
    (hsame : SameEntries t0 t) (hacc : ∀ r ∈ acc, r.srcRealm = realm ∧ .right r.srcHid ∈ all ∧
      ∃ e, t0.lookup r.srcHid = some e ∧ e.transferable)
    (h : TableFloor (fun k => n k + acc.count ⟨realm, k⟩) t) :
    SameEntries t0 (collectRights hasAcquire realm items t acc).1 ∧
      CollectOk realm all t0 n (collectRights hasAcquire realm items t acc).1
        (collectRights hasAcquire realm items t acc).2 := by
  have hleave : TableFloor n t := h.mono fun k => Nat.le_add_right _ _
  induction items generalizing acc t with
  | nil => exact ⟨hsame, h, hlen, hacc⟩
  | cons item items ih =>
    cases item with
    | endless => exact ⟨hsame, hleave⟩
    | short => exact ⟨hsame, hleave⟩
    | right hid =>
      unfold collectRights
      split
      · -- one handle too many
        have hunwind := unwindRights_spec hasAcquire hn (fun r hr => (hacc r hr).1) h
        exact ⟨hsame.trans hunwind.1, hunwind.2⟩
      split
      · exact ⟨hsame, hleave⟩
      next e hfound =>
        split
        · exact ⟨hsame, hleave⟩
        next htransferable =>
          -- the entry was there, and transferable, from the start
          obtain ⟨e0, hfound0, htransferable0⟩ : ∃ e0, t0.lookup hid = some e0 ∧
              e0.transferable := by
            have hk := hsame hid
            rw [hfound] at hk
            cases hfound0 : t0.lookup hid with
            | none =>
              rw [hfound0] at hk
              cases hk
            | some e0 =>
              rw [hfound0] at hk
              have heq := congrArg HandleEntry.transferable (Option.some.inj hk)
              exact ⟨e0, rfl, heq.symm.trans (Bool.eq_true_of_not_eq_false htransferable)⟩
          obtain ⟨hkept, hfloor⟩ := @acquire_spec _ t _ hid h
          have hfloor' : TableFloor
              (fun k => n k + (acc ++ [FrameRight.mk realm hid]).count ⟨realm, k⟩) (t.acquire hid) :=
            hfloor.mono fun k => by
              rw [count_append, count_mk_cons realm k ⟨realm, hid⟩ rfl []]
              simp only [count_nil]
              omega
          have hlen' : (acc ++ [FrameRight.mk realm hid]).length ≤ maxRights := by
            simp only [length_append, length_singleton]
            omega
          refine ih (fun i hi => hitems i (mem_cons_of_mem _ hi)) _ hlen'
            (hsame.trans hkept) ?_ hfloor' (hfloor'.mono fun k => Nat.le_add_right _ _)
          intro r hr
          rcases mem_append.mp hr with hr | hr
          · exact hacc r hr
          · obtain rfl := mem_singleton.mp hr
            exact ⟨rfl, hitems _ mem_cons_self, e0, hfound0, htransferable0⟩

/-! ## All tables -/

namespace Sockets

variable {C U : Type} {realm : UInt64}

/-- The entry that a right names. -/
def found (st : Sockets ρ C U) (r : FrameRight) : Option (HandleEntry ρ) :=
  (st.table r.srcRealm).bind fun t => t.lookup r.srcHid

/-- `st'` has the entries of `st`, up to reference counts. -/
def SameFound (st st' : Sockets ρ C U) : Prop :=
  ∀ r, (st'.found r).map uncounted = (st.found r).map uncounted

/-- Every entry of `st` is one of `st'`, up to its reference count. -/
def Keeps (st st' : Sockets ρ C U) : Prop :=
  ∀ r e, st.found r = some e → ∃ e', st'.found r = some e' ∧ uncounted e' = uncounted e

/-- Every entry has at least this many references. -/
def Floor (n : FrameRight → Nat) (st : Sockets ρ C U) : Prop :=
  ∀ r e, st.found r = some e → n r ≤ e.refcount

@[simp] theorem found_setPhase [DecidableEq U] {st : Sockets ρ C U} {u : U} {p : Phase (C × Bool)} :
    (st.setPhase u p).found = st.found := rfl

theorem found_setTable {st : Sockets ρ C U} {r : FrameRight} : (st.setTable realm t).found r =
      if r.srcRealm = realm then t.lookup r.srcHid else st.found r := by
  unfold found setTable
  by_cases hr : r.srcRealm = realm
  · simp [hr]
  · simp [hr]

variable {st st' st'' : Sockets ρ C U} {n n' : FrameRight → Nat}

theorem SameFound.refl (st : Sockets ρ C U) : SameFound st st := fun _ => rfl

theorem SameFound.symm (h : SameFound st st') : SameFound st' st := fun r => (h r).symm

theorem SameFound.trans (h : SameFound st st') (h' : SameFound st' st'') : SameFound st st'' :=
  fun r => (h' r).trans (h r)

theorem Keeps.refl (st : Sockets ρ C U) : st.Keeps st := fun _ e he => ⟨e, he, rfl⟩

theorem SameFound.keeps (h : SameFound st st') : st.Keeps st' := by
  intro r e he
  have hr := h r
  rw [he, Option.map_some, Option.map_eq_some_iff] at hr
  exact hr

theorem Keeps.trans (h : st.Keeps st') (h' : st'.Keeps st'') : st.Keeps st'' := by
  intro r e he
  obtain ⟨e', he', heq⟩ := h r e he
  obtain ⟨e'', he'', heq'⟩ := h' r e' he'
  exact ⟨e'', he'', heq'.trans heq⟩

theorem Floor.mono (h : st.Floor n) (hle : ∀ r, n' r ≤ n r) : st.Floor n' :=
  fun r e he => (hle r).trans (h r e he)

/-- The floor of one table, in a floor of all. -/
theorem Floor.table (h : st.Floor n)
    (ht : st.table realm = some t) : TableFloor (fun k => n ⟨realm, k⟩) t := by
  intro k e he
  exact h ⟨realm, k⟩ e (by simp [found, ht, he])

/-- Change one table. -/
theorem setTable_spec {t' : HandleTable ρ} (ht : st.table realm = some t)
    (hsame : SameEntries t t') (hfloor : TableFloor (fun k => n ⟨realm, k⟩) t')
    (hrest : ∀ r e, r.srcRealm ≠ realm → st.found r = some e → n r ≤ e.refcount) :
    SameFound st (st.setTable realm t') ∧ (st.setTable realm t').Floor n := by
  constructor
  · intro r
    rw [found_setTable]
    split
    · next hr =>
      have hr' : st.found r = t.lookup r.srcHid := by simp [found, hr, ht]
      rw [hr']
      exact hsame r.srcHid
    · rfl
  intro r e he
  rw [found_setTable] at he
  split at he
  · next hr =>
    obtain ⟨realm', k⟩ := r
    subst hr
    exact hfloor k e he
  · next hr => exact hrest r e hr he

theorem releaseRight_spec {r : FrameRight} (hn : ∀ r, 1 ≤ n r)
    (h : st.Floor fun r' => n r' + if r' = r then 1 else 0) :
    SameFound st (st.releaseRight r) ∧ (st.releaseRight r).Floor n := by
  unfold releaseRight
  split
  · exact ⟨fun _ => rfl, h.mono fun _ => Nat.le_add_right _ _⟩
  next t ht =>
    have htable : TableFloor (fun k => n ⟨r.srcRealm, k⟩ + if k = r.srcHid then 1 else 0) t :=
      (h.table ht).mono fun k => by
        by_cases hk : k = r.srcHid
        · simp [hk]
        · simp [hk]
    obtain ⟨hsame, hfloor⟩ := release_spec (fun k => hn ⟨r.srcRealm, k⟩) htable
    exact setTable_spec ht hsame hfloor fun r' e _ he =>
      (Nat.le_add_right _ _).trans (h r' e he)

/-- Giving back what a message holds. -/
theorem releaseRights_spec (hn : ∀ r, 1 ≤ n r) {rs : List FrameRight}
    (h : st.Floor fun r => n r + rs.count r) :
    SameFound st (st.releaseRights rs) ∧ (st.releaseRights rs).Floor n := by
  induction rs generalizing st with
  | nil => exact ⟨fun _ => rfl, h.mono fun _ => by simp⟩
  | cons r rs ih =>
    have hhead : st.Floor fun r' => (n r' + rs.count r') + if r' = r then 1 else 0 :=
      h.mono fun r' => by
        rw [count_cons]
        by_cases hr : r' = r
        · simp [hr, Nat.add_assoc]
        · simp [hr, Ne.symm hr]
    have hone := releaseRight_spec (fun r' => (hn r').trans (Nat.le_add_right _ _)) hhead
    have hrest := ih hone.2
    exact ⟨hone.1.trans hrest.1, hrest.2⟩

/-- The first part of `sendmsg` fails, and takes no reference away, or holds a reference for each
right of the message. -/
theorem startSendmsg_spec [DecidableEq C] [DecidableEq U] {hasAcquire : ρ → Bool} {u : U}
    {d : C × Bool} {blocking mallocOk : Bool} (realm : UInt64) (msg : OutMsg) (hn : ∀ r, 1 ≤ n r)
    (h : st.Floor n) : ∃ st1, SameFound st st1 ∧ st1.phase = st.phase ∧ st1.channel = st.channel ∧
      ((∃ p, (p = .endless ∨ ∃ e : Error, p = .ret e.toErrno) ∧ st1.Floor n ∧
        st.startSendmsg hasAcquire u d realm msg blocking mallocOk = st1.setPhase u p) ∨
      ∃ rs, (∃ t t', collectRights hasAcquire realm msg.items t [] = (t', .rights rs)) ∧
        rs.length ≤ maxRights ∧ (∀ r ∈ rs, .right r.srcHid ∈ msg.items ∧ r.srcRealm = realm ∧
          ∃ e, st.found r = some e ∧ e.transferable) ∧ st1.Floor (fun r => n r + rs.count r) ∧
        st.startSendmsg hasAcquire u d realm msg blocking mallocOk = st1.setPhase u
          (.sendFrame d (msg.frame rs) msg.payloadLen rs blocking)) := by
  unfold startSendmsg
  cases ht : st.table realm with
  | none => exact ⟨st, .refl st, rfl, rfl, .inl ⟨_, .inr ⟨.srch, rfl⟩, h, rfl⟩⟩
  | some t =>
    dsimp only
    have hspec := collectRights_spec hasAcquire realm (fun k => hn ⟨realm, k⟩) msg.items
      (fun i hi => hi) [] (Nat.zero_le _) (SameEntries.refl t) (fun r hr => nomatch hr) (by simpa using h.table ht)
    generalize hres : collectRights hasAcquire realm msg.items t [] = res at hspec
    obtain ⟨t', collected⟩ := res
    obtain ⟨hentries, hok⟩ := hspec
    -- a call that fails while it collects
    have hfail : TableFloor (fun k => n ⟨realm, k⟩) t' →
        SameFound st (st.setTable realm t') ∧ (st.setTable realm t').Floor n := fun hfloor =>
      setTable_spec ht hentries hfloor fun r e _ he => h r e he
    cases collected with
    | endless => exact ⟨_, (hfail hok).1, rfl, rfl, .inl ⟨_, .inl rfl, (hfail hok).2, rfl⟩⟩
    | error e => exact ⟨_, (hfail hok).1, rfl, rfl, .inl ⟨_, .inr ⟨e, rfl⟩, (hfail hok).2, rfl⟩⟩
    | rights rs =>
      obtain ⟨hfloor, hfew, hrs⟩ := hok
      -- every right of the message is one of this realm
      obtain ⟨hfound, hall⟩ := setTable_spec (n := fun r => n r + rs.count r) ht hentries hfloor
        fun r e hr he => by
          rw [count_eq_zero.mpr fun hmem => hr (hrs r hmem).1]
          exact h r e he
      dsimp only
      split
      · refine ⟨_, hfound, rfl, rfl, .inr ⟨rs, ⟨t, t', hres⟩, hfew, fun r hr => ?_, hall, rfl⟩⟩
        obtain ⟨hrealm, hitem, e, he, htransferable⟩ := hrs r hr
        exact ⟨hitem, hrealm, e, by simp [found, hrealm, ht, he], htransferable⟩
      · obtain ⟨hback, hfinal⟩ := releaseRights_spec hn hall
        exact ⟨_, hfound.trans hback, releaseRights_phase _ _, releaseRights_channel _ _,
          .inl ⟨_, .inr ⟨.noMem, rfl⟩, hfinal, rfl⟩⟩

/-- Whatever the channel took, `sendmsg` returns, and gives back no more than it holds. -/
theorem finishSend_spec [DecidableEq U] {u : U} {rights : List FrameRight}
    {payloadLen frameLen : Nat} {sent : Int} (hn : ∀ r, 1 ≤ n r)
    (h : st.Floor fun r => n r + rights.count r) : ∃ (st2 : Sockets ρ C U) (r : Int),
      st.finishSend u rights payloadLen frameLen sent = st2.setPhase u (.ret r) ∧
      st2.phase = st.phase ∧ st2.channel = st.channel ∧ SameFound st st2 ∧ st2.Floor n := by
  have hrelease := releaseRights_spec hn h
  unfold finishSend
  split
  · exact ⟨_, _, rfl, releaseRights_phase st rights, releaseRights_channel st rights, hrelease⟩
  split
  · exact ⟨_, _, rfl, releaseRights_phase st rights, releaseRights_channel st rights, hrelease⟩
  · exact ⟨st, _, rfl, rfl, rfl, fun _ => rfl, h.mono fun _ => Nat.le_add_right _ _⟩

section

variable {dst dst' : HandleTable ρ} {type : HandleType} {resource : ρ} {caps hid : UInt64}
  (hdst : st.table realm = some dst) (hadd : dst.add type resource caps true = .ok (dst', hid))

include hdst hadd

/-- A table with one more entry. -/
theorem found_add : st.found ⟨realm, hid⟩ = none ∧
      ∀ r, (st.setTable realm dst').found r =
        if r = ⟨realm, hid⟩ then some ⟨hid, type, resource, caps, 1, true⟩ else st.found r := by
  refine ⟨by simp [found, hdst, (lookup_add hadd hid).1], ?_⟩
  rintro ⟨realm', k⟩
  rw [found_setTable]
  by_cases hrealm : realm' = realm
  · subst hrealm
    simp only [if_true, (lookup_add hadd k).2, FrameRight.mk.injEq, true_and]
    split
    · rfl
    · simp [found, hdst]
  · simp [hrealm]

/-- The new entry has the one reference it needs. -/
theorem Floor.add (h : st.Floor n) (hone : n ⟨realm, hid⟩ ≤ 1) :
    (st.setTable realm dst').Floor n := by
  intro r e he
  rw [(found_add hdst hadd).2] at he
  split at he
  · next hr =>
    cases he
    rw [hr]
    exact hone
  · exact h r e he

end

/-- A transfer: every entry stays, and at most one is new, of the resource that the right
names. -/
theorem transferRight_spec {hasAcquire : ρ → Bool} {r : FrameRight}
    (hn : ∀ r, 1 ≤ n r) (hone : ∀ r', n r' = 1 ∨ (st.found r').isSome)
    (h : st.Floor fun r' => n r' + if r' = r then 1 else 0) :
    (st.transferRight hasAcquire realm r).1.Floor n ∧ (∀ r' e, st.found r' = some e →
        ∃ e', (st.transferRight hasAcquire realm r).1.found r' = some e' ∧
          uncounted e' = uncounted e) ∧
      ∀ r' e', (st.transferRight hasAcquire realm r).1.found r' = some e' →
        st.found r' = none → r'.srcRealm = realm ∧
          ∃ e, st.found r = some e ∧ e.transferable ∧ e'.resource = e.resource := by
  -- a step that keeps all entries
  have hkeep : ∀ st' : Sockets ρ C U, SameFound st st' ∧ st'.Floor n →
      st'.Floor n ∧
      (∀ r' e, st.found r' = some e → ∃ e', st'.found r' = some e' ∧ uncounted e' = uncounted e) ∧
      ∀ r' e', st'.found r' = some e' → st.found r' = none → r'.srcRealm = realm ∧
          ∃ e, st.found r = some e ∧ e.transferable ∧ e'.resource = e.resource := by
    rintro st' ⟨hsame, hfloor⟩
    refine ⟨hfloor, ?_, ?_⟩
    · intro r' e he
      have hr' := hsame r'
      rw [he, Option.map_some, Option.map_eq_some_iff] at hr'
      exact hr'
    · intro r' e' he' hnone
      have hr' := hsame r'
      rw [he', hnone] at hr'
      cases hr'
  unfold transferRight
  split
  · exact hkeep st ⟨fun _ => rfl, h.mono fun _ => Nat.le_add_right _ _⟩
  next src hsrc =>
    split
    · next e dst hfound hdst =>
      split
      · next dst' hid htransfer =>
        obtain ⟨htransferable, -, -, hadd⟩ := transferHandleToRealm_ok htransfer
        obtain ⟨hnew, hsetFound⟩ := found_add hdst hadd
        have hfloor : (st.setTable realm dst').Floor fun r' => n r' + if r' = r then 1 else 0 := by
          refine h.add hdst hadd ?_
          have hne : (⟨realm, hid⟩ : FrameRight) ≠ r := by
            rintro rfl
            simp [found, hsrc, hfound] at hnew
          have hone' : n ⟨realm, hid⟩ = 1 := by
            rcases hone ⟨realm, hid⟩ with h1 | h1
            · exact h1
            · rw [hnew] at h1
              cases h1
          simp [hne, hone']
        obtain ⟨hsame, hfinal⟩ := releaseRight_spec hn hfloor
        refine ⟨hfinal, ?_, ?_⟩
        · intro r' e' he'
          have hr' := hsame r'
          have hne : r' ≠ ⟨realm, hid⟩ := by
            rintro rfl
            rw [hnew] at he'
            cases he'
          rw [hsetFound, if_neg hne, he', Option.map_some, Option.map_eq_some_iff] at hr'
          exact hr'
        intro r' e' he' hnone
        have hr' := hsame r'
        rw [hsetFound, he', hnone] at hr'
        split at hr'
        · next heq =>
          subst heq
          have hresource := congrArg HandleEntry.resource (Option.some.inj hr')
          exact ⟨rfl, e, by simp [found, hsrc, hfound], htransferable, hresource⟩
        · cases hr'
      · exact hkeep _ (releaseRight_spec hn h)
    · exact hkeep _ (releaseRight_spec hn h)

end Sockets

end Vespera.Ipc
