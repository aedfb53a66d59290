import Mathlib.Data.Finset.Card
import Mathlib.Data.List.Forall2
import Mathlib.Order.Interval.Finset.Nat
import Vespera.Ipc.References

/-! # Delivering the rights of a frame

When a transfer succeeds, and what a row of transfers comes to: every right of the frame gives
the receiver a new handle of the same resource, in order, as long as the entries can be granted
and the receiver's table has room (`deliver`). `freeSlots` counts that room.
-/

namespace Vespera.Ipc

open List Realms HandleTable

variable {ρ : Type}

/-! ## Room in a table -/

/-- The slots that `find_free_slot` may find. -/
def freeSlots (t : HandleTable ρ) : Finset Nat :=
  (Finset.Ico 4 maxHandlesPerRealm).filter fun i => (t.entries i).isNone = true

theorem findFreeSlotFrom_isSome {t : HandleTable ρ} {n i slot : Nat} (hle : i ≤ slot)
    (hlt : slot < i + n) (hfree : (t.entries slot).isNone) : (t.findFreeSlotFrom n i).isSome := by
  induction n generalizing i with
  | zero => omega
  | succ n ih =>
    unfold findFreeSlotFrom
    split
    · next htaken =>
      have hne : i ≠ slot := by
        rintro rfl
        rw [Option.isNone_iff_eq_none.mp hfree] at htaken
        cases htaken
      exact ih (by omega) (by omega)
    · rfl

theorem findFreeSlot_of_room {t : HandleTable ρ} (h : 0 < (freeSlots t).card) :
    ∃ slot, t.findFreeSlot = some slot := by
  obtain ⟨slot, hslot⟩ := Finset.card_pos.mp h
  obtain ⟨hmem, hfree⟩ := Finset.mem_filter.mp hslot
  rw [Finset.mem_Ico] at hmem
  simp only [maxHandlesPerRealm] at hmem
  exact Option.isSome_iff_exists.mp
    (findFreeSlotFrom_isSome hmem.1 (by simp only [maxHandlesPerRealm]; omega) hfree)

/-- An entry that is written takes at most one slot. -/
theorem freeSlots_setSlot (t : HandleTable ρ) (slot : Nat) (e : HandleEntry ρ) :
    (freeSlots t).card ≤ (freeSlots (t.setSlot slot (some e))).card + 1 := by
  refine (Finset.card_le_card fun i hi => ?_).trans (Finset.card_insert_le slot _)
  rw [Finset.mem_insert]
  by_cases his : i = slot
  · exact .inl his
  · refine .inr (Finset.mem_filter.mpr ?_)
    obtain ⟨hmem, hfree⟩ := Finset.mem_filter.mp hi
    exact ⟨hmem, by rwa [setSlot_entries_of_ne his]⟩

/-- Giving a reference back takes no slot. -/
theorem freeSlots_release {t : HandleTable ρ} (hid : UInt64) :
    (freeSlots t).card ≤ (freeSlots (t.release hid).1).card := by
  refine Finset.card_le_card fun i hi => ?_
  obtain ⟨hmem, hfree⟩ := Finset.mem_filter.mp hi
  refine Finset.mem_filter.mpr ⟨hmem, ?_⟩
  unfold release
  split
  · exact hfree
  next he hfound =>
    have hne : i ≠ slotOf hid := by
      rintro rfl
      rw [(lookup_eq_some.mp hfound).2.1] at hfree
      cases hfree
    split
    · rwa [setSlot_entries_of_ne hne]
    · rwa [setSlot_entries_of_ne hne]

/-! ## One transfer -/

/-- An entry that `transfer_handle_to_realm` passes on with all its capabilities. -/
structure Grantable (hasAcquire : ρ → Bool) (e : HandleEntry ρ) : Prop where
  transferable : e.transferable = true
  capable : e.capabilities ≠ 0
  shared : hasAcquire e.resource = true

theorem Grantable.of_uncounted {hasAcquire : ρ → Bool} {e e' : HandleEntry ρ}
    (h : Grantable hasAcquire e) (heq : uncounted e' = uncounted e) : Grantable hasAcquire e' := by
  have hfields : (uncounted e').transferable = (uncounted e).transferable ∧
      (uncounted e').capabilities = (uncounted e).capabilities ∧
      (uncounted e').resource = (uncounted e).resource := by rw [heq]; exact ⟨rfl, rfl, rfl⟩
  obtain ⟨htransferable, hcaps, hresource⟩ := hfields
  constructor
  · exact htransferable.trans h.transferable
  · exact fun hzero => h.capable (hcaps.symm.trans hzero)
  · exact (congrArg hasAcquire hresource).trans h.shared

theorem transferHandleToRealm_of_grantable {hasAcquire : ρ → Bool} {e : HandleEntry ρ}
    {dst : HandleTable ρ} (h : Grantable hasAcquire e) (hroom : 0 < (freeSlots dst).card) :
    ∃ dst' hid, transferHandleToRealm hasAcquire e dst e.capabilities = .ok (dst', hid) ∧
      (freeSlots dst).card ≤ (freeSlots dst').card + 1 := by
  obtain ⟨slot, hslot⟩ := findFreeSlot_of_room hroom
  have hself : e.capabilities &&& e.capabilities = e.capabilities := UInt64.and_self
  refine ⟨_, hidOf e.type slot, ?_, freeSlots_setSlot dst slot
    ⟨hidOf e.type slot, e.type, e.resource, e.capabilities, 1, true⟩⟩
  unfold transferHandleToRealm add
  rw [hself, h.transferable, h.shared, hslot]
  simp only [Bool.true_eq_false, if_false, h.capable]

namespace Sockets

variable {C U : Type} {st : Sockets ρ C U} {realm : UInt64} {r : FrameRight}

/-- The receiver has room for `n` handles. -/
def Room (st : Sockets ρ C U) (realm : UInt64) (n : Nat) : Prop :=
  ∃ t, st.table realm = some t ∧ n ≤ (freeSlots t).card

instance (st : Sockets ρ C U) (realm : UInt64) (n : Nat) : Decidable (st.Room realm n) :=
  match h : st.table realm with
  | none => .isFalse fun ⟨_, ht, _⟩ => by
      rw [h] at ht
      cases ht
  | some t => decidable_of_iff (n ≤ (freeSlots t).card) ⟨fun hn => ⟨t, h, hn⟩, fun ⟨t', ht, hn⟩ => by
      rw [h] at ht
      exact Option.some.inj ht ▸ hn⟩

theorem Room.releaseRight {n : Nat} (h : st.Room realm n) (r : FrameRight) :
    (st.releaseRight r).Room realm n := by
  obtain ⟨t, ht, hroom⟩ := h
  unfold Sockets.releaseRight
  split
  · exact ⟨t, ht, hroom⟩
  next src hsrc =>
    by_cases hrealm : realm = r.srcRealm
    · subst hrealm
      rw [hsrc] at ht
      obtain rfl := Option.some.inj ht
      exact ⟨_, by simp [setTable], hroom.trans (freeSlots_release r.srcHid)⟩
    · exact ⟨t, by simp [setTable, hrealm, ht], hroom⟩

/-- A right that can be granted gives the receiver a new handle of its resource. -/
theorem transferRight_grant {hasAcquire : ρ → Bool} {n : FrameRight → Nat} {k : Nat}
    (hn : ∀ r, 1 ≤ n r) (hone : ∀ r', n r' = 1 ∨ (st.found r').isSome)
    (hfloor : st.Floor fun r' => n r' + if r' = r then 1 else 0) {e : HandleEntry ρ}
    (he : st.found r = some e) (hgrant : Grantable hasAcquire e) (hroom : st.Room realm (k + 1)) :
    (∃ e', (st.transferRight hasAcquire realm r).1.found
        ⟨realm, (st.transferRight hasAcquire realm r).2⟩ = some e' ∧ e'.resource = e.resource) ∧
      (st.transferRight hasAcquire realm r).1.Room realm k := by
  obtain ⟨dst, hdst, hcard⟩ := hroom
  obtain ⟨src, hsrc, hlookup⟩ : ∃ src, st.table r.srcRealm = some src ∧
      src.lookup r.srcHid = some e := by
    exact Option.bind_eq_some_iff.mp he
  obtain ⟨dst', hid, htransfer, hless⟩ := transferHandleToRealm_of_grantable hgrant
    (show 0 < (freeSlots dst).card by omega)
  obtain ⟨-, -, -, hadd⟩ := transferHandleToRealm_ok htransfer
  have hresult : st.transferRight hasAcquire realm r =
      ((st.setTable realm dst').releaseRight r, hid) := by
    unfold transferRight
    simp only [hsrc, hlookup, hdst, htransfer]
  obtain ⟨hfresh, hfound⟩ := found_add hdst hadd
  have hne : (⟨realm, hid⟩ : FrameRight) ≠ r := by
    intro heq
    rw [heq, he] at hfresh
    cases hfresh
  have hfloor' : (st.setTable realm dst').Floor fun r' => n r' + if r' = r then 1 else 0 := by
    refine hfloor.add hdst hadd ?_
    rcases hone ⟨realm, hid⟩ with h1 | h1
    · simp [hne, h1]
    · rw [hfresh] at h1
      cases h1
  -- the new entry stays when the sender's reference is given back
  have hnew : (st.setTable realm dst').found ⟨realm, hid⟩ =
      some ⟨hid, e.type, e.resource, e.capabilities &&& e.capabilities, 1, true⟩ := by
    rw [hfound, if_pos rfl]
  obtain ⟨e', he', heq⟩ := (releaseRight_spec hn hfloor').1.keeps ⟨realm, hid⟩ _ hnew
  have hresource : (uncounted e').resource = e.resource := by
    rw [heq]
    rfl
  have hroom' : (st.setTable realm dst').Room realm k := ⟨dst', by simp [setTable], by omega⟩
  rw [hresult]
  exact ⟨⟨e', he', hresource⟩, hroom'.releaseRight r⟩

/-! ## All rights of a frame -/

/-- In `st'` the handle `hid` of the realm is of the resource that the right names in `st`. -/
def Delivered (st st' : Sockets ρ C U) (realm : UInt64) (r : FrameRight) (hid : UInt64) : Prop :=
  ∃ e e', st.found r = some e ∧ st'.found ⟨realm, hid⟩ = some e' ∧ e'.resource = e.resource

theorem resource_of_uncounted {e e' : HandleEntry ρ} (h : uncounted e' = uncounted e) :
    e'.resource = e.resource := by
  have hresource : (uncounted e').resource = (uncounted e).resource := by rw [h]
  exact hresource

/-- A delivery stays one when entries are kept. -/
theorem Delivered.mono {st0 st1 st2 st3 : Sockets ρ C U} {hid : UInt64}
    (h : Delivered st1 st2 realm r hid) (hbefore : st0.Keeps st1) (hold : (st0.found r).isSome)
    (hafter : st2.Keeps st3) : Delivered st0 st3 realm r hid := by
  obtain ⟨e, e', he, he', hresource⟩ := h
  obtain ⟨e0, he0⟩ := Option.isSome_iff_exists.mp hold
  obtain ⟨e1, he1, heq1⟩ := hbefore r e0 he0
  rw [he] at he1
  obtain rfl := Option.some.inj he1
  obtain ⟨e3, he3, heq3⟩ := hafter _ e' he'
  exact ⟨e0, e3, he0, he3, (resource_of_uncounted heq3).trans
    (hresource.trans (resource_of_uncounted heq1))⟩

variable [DecidableEq C] [DecidableEq U] (hasAcquire : ρ → Bool) {u : U} {d : C × Bool}
  {call : RecvCall} {data : List UInt8}

/-- The transfers of a `recvmsg`: each right gives a handle. -/
theorem advance_transfers (rs : List FrameRight) {n : FrameRight → Nat}
    {hids : List UInt64} (hp : st.phase u = .transfer d call rs data hids) (hn : ∀ r, 1 ≤ n r)
    (hone : ∀ r, n r = 1 ∨ (st.found r).isSome) (hfloor : st.Floor fun r => n r + rs.count r)
    (hgrant : ∀ r ∈ rs, ∃ e, st.found r = some e ∧ Grantable hasAcquire e)
    (hroom : st.Room call.realm rs.length)
    (hcap : 8 * (hids.length + rs.length) ≤ call.msg.outCap) :
    ∃ st' new, (fun s => s.advance hasAcquire u)^[rs.length] st = st' ∧
      st'.phase u = .transfer d call [] data (hids ++ new) ∧
      List.Forall₂ (Delivered st st' call.realm) rs new ∧ st.Keeps st' ∧ st'.Floor n ∧
      st'.channel = st.channel ∧ ∀ v, v ≠ u → st'.phase v = st.phase v := by
  induction rs generalizing st hids with
  | nil =>
    exact ⟨st, [], rfl, by rw [hp, append_nil], .nil, Keeps.refl st, by simpa using hfloor,
      rfl, fun _ _ => rfl⟩
  | cons r rest ih =>
    obtain ⟨e, he, hgrantable⟩ := hgrant r mem_cons_self
    -- the references of this right and of those behind it
    have hn' : ∀ r', 1 ≤ n r' + rest.count r' := fun r' => (hn r').trans (Nat.le_add_right _ _)
    have hfoundRest : ∀ r' ∈ rest, (st.found r').isSome := by
      intro r' hr'
      obtain ⟨e', he', -⟩ := hgrant r' (mem_cons_of_mem r hr')
      rw [he']
      rfl
    have hone' : ∀ r', n r' + rest.count r' = 1 ∨ (st.found r').isSome := by
      intro r'
      by_cases hr' : r' ∈ rest
      · exact .inr (hfoundRest r' hr')
      · rw [count_eq_zero.mpr hr']
        exact hone r'
    have hfloor' : st.Floor fun r' => (n r' + rest.count r') + if r' = r then 1 else 0 :=
      hfloor.mono fun r' => by
        rw [count_cons]
        by_cases hr' : r' = r
        · simp [hr', Nat.add_assoc]
        · simp [hr', Ne.symm hr']
    obtain ⟨⟨e', he', hresource⟩, hroom'⟩ :=
      transferRight_grant hn' hone' hfloor' he hgrantable hroom
    have hspec : (st.transferRight hasAcquire call.realm r).1.Floor _ ∧ st.Keeps _ ∧ _ :=
      transferRight_spec hn' hone' hfloor'
    obtain ⟨hfloor1, hkeeps1, -⟩ := hspec
    -- the state after one step
    have hcap' : 8 * hids.length + 8 ≤ call.msg.outCap := by
      simp only [length_cons] at hcap
      omega
    have hadvance : st.advance hasAcquire u =
        (st.transferRight hasAcquire call.realm r).1.setPhase u (.transfer d call rest data
          (hids ++ [(st.transferRight hasAcquire call.realm r).2])) := by
      unfold advance
      simp only [hp]
      rw [if_pos hcap']
    obtain ⟨st', new, hiter, hphase, hdelivered, hkeeps, hfinal, hchannel, hothers⟩ :=
      @ih (st.advance hasAcquire u) (hids ++ [(st.transferRight hasAcquire call.realm r).2])
        (by rw [hadvance, setPhase_self])
        (fun r' => by
          rcases hone r' with h1 | h1
          · exact .inl h1
          · obtain ⟨e'', he''⟩ := Option.isSome_iff_exists.mp h1
            obtain ⟨e3, he3, -⟩ := hkeeps1 r' e'' he''
            exact .inr (by rw [hadvance, found_setPhase, he3]; rfl))
        (by rw [hadvance]; exact hfloor1)
        (fun r' hr' => by
          obtain ⟨e'', he'', hgrantable'⟩ := hgrant r' (mem_cons_of_mem r hr')
          obtain ⟨e3, he3, heq⟩ := hkeeps1 r' e'' he''
          exact ⟨e3, by rw [hadvance, found_setPhase, he3], hgrantable'.of_uncounted heq⟩)
        (by rw [hadvance]; exact hroom')
        (by simp only [length_append, length_cons, length_nil] at hcap ⊢; omega)
    have hkeeps1' : st.Keeps (st.advance hasAcquire u) := by
      rw [hadvance]
      exact hkeeps1
    refine ⟨st', (st.transferRight hasAcquire call.realm r).2 :: new, hiter, ?_, ?_,
      hkeeps1'.trans hkeeps, hfinal, ?_, ?_⟩
    · rw [hphase, append_assoc]
      rfl
    · refine .cons ?_ ?_
      · have hfirst : Delivered st (st.advance hasAcquire u) call.realm r
            (st.transferRight hasAcquire call.realm r).2 := by
          refine ⟨e, e', he, ?_, hresource⟩
          rw [hadvance]
          exact he'
        exact hfirst.mono (Keeps.refl st) (by rw [he]; rfl) hkeeps
      · refine ((forall₂_and_left rest new).mpr ⟨hfoundRest, hdelivered⟩).imp fun r' hid hdel => ?_
        exact hdel.2.mono hkeeps1' hdel.1 (Keeps.refl st')
    · rw [hchannel, hadvance, setPhase_channel, transferRight_channel]
    · intro v hv
      rw [hothers v hv, hadvance, setPhase_of_ne hv, transferRight_phase]

end Sockets

end Vespera.Ipc
