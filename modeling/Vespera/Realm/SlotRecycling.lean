import Vespera.Realm.LifecycleInv

/-! # When a realm slot is recycled

`finalize_locked` frees the slot of a realm. Its callers look at two flags, `wait_consumed` and
`teardown_complete`, except for `destroy`, which frees the exited children of the realm it is about
and looks at neither, and `abort`.

Main results: `slots_recycled_when_done` (in runs where no spawn is aborted, and where the exited
children of a realm that is destroyed have no units, a slot is freed only when the units of its
realm have left the reapers and its exit was consumed or its parent is gone; the id is never active
again), `child_recycled_early` (a child that has exited is freed with its unit still in a reaper).
-/

namespace Vespera.Realms

open Lib RealmManager

namespace Life

variable {ρ : Type} {st : Life ρ} {q : Nat → List (Fin maxUnits)} {j : Fin maxRealms}

/-! ## What is claimed -/

variable (st)

/-- The units in the queue of a reaper. -/
def queueOf (c : Nat) : List (Fin maxUnits) :=
  IntrusiveQueue.follow st.next maxUnits (st.reapers c).head

/-- The units of a realm are through `complete_termination` and in no reaper's queue. -/
def LeftReapers (x : Nat) : Prop :=
  ∀ u, (st.units u).active = true → (st.units u).rid = x →
    (st.units u).phase = .zombie ∧ ∀ c, u ∉ st.queueOf c

/-- The realm with this id is not there, or it has exited and has no units. -/
def Gone (x : Nat) : Prop :=
  ∀ i, (st.rm.realms i).active = true → (st.rm.realms i).id = x →
    (st.rm.realms i).exited = true ∧ st.unitList i = []

/-- The step frees the slot of the realm `x`. -/
def Finalizes (a : LifeAct) (x : Nat) : Prop :=
  ∃ j, (st.rm.realms j).active = true ∧ (st.rm.realms j).id = x ∧
    ((lifeStep st a).1.rm.realms j).active = false

/-- Nobody needs the realm `x` after the step. -/
def Recyclable (a : LifeAct) (x : Nat) : Prop :=
  st.LeftReapers x ∧
    (x ∈ (lifeStep st a).1.consumed ∨
      ∃ j, (st.rm.realms j).active = true ∧ (st.rm.realms j).id = x ∧
        (lifeStep st a).1.Gone (st.rm.realms j).parentId)

/-- The spawner of this realm does not call `abort`. -/
def NoAbort : LifeAct → Prop
  | .abort i rid => (i, rid) ∉ st.starting
  | _ => True

instance : (a : LifeAct) → Decidable (st.NoAbort a)
  | .abort .. => inferInstanceAs (Decidable (_ ∉ _))
  | .createRealm .. | .firstUnit .. | .unitSpawn .. | .exitCurrent .. | .exitRealm .. | .kill ..
  | .reaper _ | .destroyRealm | .markRealm | .wait .. | .waitAgain .. | .join .. | .joinAgain .. =>
    inferInstanceAs (Decidable True)

/-- The steps in question. -/
def Timely (a : LifeAct) : Prop := Tame st a ∧ st.NoAbort a

instance (a : LifeAct) : Decidable (Timely st a) :=
  inferInstanceAs (Decidable (_ ∧ _))

variable {st}

/-! ## The table after a step -/

/-- The realms are the same ones. -/
structure Held (rm rm' : RealmManager ρ) : Prop extends KeepsCreds rm rm' where
  active : ∀ j, (rm'.realms j).active = (rm.realms j).active

theorem Held.refl (rm : RealmManager ρ) : Held rm rm := ⟨.refl rm, fun _ => rfl⟩

theorem held_setRealm {rm : RealmManager ρ} {i : Fin maxRealms} {r : Realm ρ}
    (hactive : r.active = (rm.realms i).active) (hid : r.id = (rm.realms i).id)
    (hcred : r.cred = (rm.realms i).cred) (hroot : r.rootPath = (rm.realms i).rootPath) :
    Held rm (rm.setRealm i r) := by
  refine ⟨(keepsRoots_setRealm hactive hid hcred hroot).toKeepsCreds, ?_⟩
  intro j
  by_cases hj : j = i
  · subst hj
    rw [setRealm_self]
    exact hactive
  · rw [setRealm_of_ne hj]

theorem store_rm {rid : Nat} {code : Int} : (st.store rid code).rm = st.rm := by
  rw [store]
  split <;> rfl

theorem wakeAll_rm {i : Fin maxRealms} : (st.wakeAll i).rm = st.rm :=
  foldl_wake_rm (st.waitQueue i) st

theorem held_finalizeRealmExit (st : Life ρ) (i : Fin maxRealms) (code : Int) :
    Held st.rm (st.finalizeRealmExit i code).rm := by
  rw [finalizeRealmExit, store_rm]
  exact held_setRealm rfl rfl rfl rfl

theorem held_endRealm {i : Fin maxRealms} {code unitCode : Int} :
    Held st.rm (st.endRealm i code unitCode).rm := by
  rw [endRealm, wakeAll_rm, (endedOnly_finish _ _ _).rm]
  exact held_finalizeRealmExit (st.giveStatus i code) i code

theorem held_exitCurrent {u : Fin maxUnits} {cpu : Nat} {code : Int} :
    Held st.rm (st.exitCurrent u cpu code).rm := by
  rw [exitCurrent]
  split
  · exact .refl _
  next i _ =>
  dsimp only
  split
  · show Held st.rm (((st.giveStatus i code).finalizeRealmExit i code).wakeAll i).rm
    rw [wakeAll_rm]
    exact held_finalizeRealmExit (st.giveStatus i code) i code
  · exact .refl _

theorem retire_rm {u : Fin maxUnits} : (st.retire u).rm = st.rm := by
  rw [retire]
  split
  · rfl
  · exact foldl_wake_rm _ st

theorem reaperStep_rm {cpu : Nat} : (st.reaperStep cpu).rm = st.rm := by
  rcases reaperStep_shape st cpu with hst | ⟨u, _, _, _, _, _, hst⟩
  · rw [hst]
  · rw [hst]
    exact retire_rm

theorem collect_rm {rid : Nat} :
    (st.collect rid).1.rm = st.rm.reap rid ∧ rid ∈ (st.collect rid).1.consumed := by
  have hconsume : (st.consume rid 0).1.rm = st.rm := by
    rw [consume]
    split
    · rfl
    · split <;> rfl
  rw [collect]
  rw [hconsume]
  exact ⟨rfl, List.mem_cons_self⟩

/-- What a step does to the realm table: nothing that matters here, or one call of
`RealmManager`. -/
theorem lifeStep_rm (st : Life ρ) (a : LifeAct) : Held st.rm (lifeStep st a).1.rm ∨
      (∃ i, Taken st.rm (lifeStep st a).1.rm i) ∨
      (∃ rid, ((∃ u nohang, a = .wait u rid nohang) ∨ ∃ u, a = .waitAgain u rid) ∧
        (lifeStep st a).1.rm = st.rm.reap rid ∧ rid ∈ (lifeStep st a).1.consumed) ∨
      (∃ rid code, a = .destroyRealm ∧ st.midway = some (.destroying rid code) ∧
        rid ≠ initRealmId ∧ (lifeStep st a).1.rm = st.rm.destroy rid code) ∨
      (∃ rid, a = .markRealm ∧ st.midway = some (.marking rid) ∧
        (lifeStep st a).1.rm = st.rm.markTeardownComplete rid) ∨
      (∃ i rid, a = .abort i rid ∧ (i, rid) ∈ st.starting ∧
        (lifeStep st a).1.rm = st.rm.abort (st.rm.realms i).id) := by
  have hsame : ∀ {rm : RealmManager ρ}, rm = st.rm → Held st.rm rm := fun h => h ▸ .refl _
  have heffect := lifeStep_effect st a
  generalize (lifeStep st a).1 = st' at heffect ⊢
  cases heffect with
  | nothing => exact .inl (.refl _)
  | noRealm parent cfg allocs hnext hrealms =>
    left
    refine ⟨⟨hnext, ?_⟩, ?_⟩ <;> dsimp only <;> rw [hrealms]
    · exact fun _ hj => ⟨hj, rfl, rfl⟩
    · exact fun _ => rfl
  | newRealm parent cfg allocs htaken => exact .inr (.inl ⟨_, htaken⟩)
  | firstUnit cpuId stackOk | unitSpawn cpuId stackOk =>
    exact .inl (hsame (createUnit_keeps st _ cpuId stackOk).1)
  | abort hx => exact .inr (.inr (.inr (.inr (.inr ⟨_, _, rfl, hx, rfl⟩))))
  | exitCurrent cpu code => exact .inl held_exitCurrent
  | exitRealm | kill => exact .inl held_endRealm
  | reaper cpu => exact .inl (hsame reaperStep_rm)
  | destroyRealm hmid hinit => exact .inr (.inr (.inr (.inl ⟨_, _, rfl, hmid, hinit, rfl⟩)))
  | markRealm hmid => exact .inr (.inr (.inr (.inr (.inl ⟨_, rfl, hmid, rfl⟩))))
  | collect rid ha => exact .inr (.inr (.inl ⟨rid, ha, collect_rm⟩))
  | wait => exact .inl (held_setRealm rfl rfl rfl rfl)
  | joined => exact .inl (.refl _)
  | join uid hrun hf hst => rcases hst with rfl | rfl <;> exact .inl (.refl _)

/-! ## Ids that are used up -/

theorem lifeStep_grows (st : Life ρ) (a : LifeAct) : Grows st.rm (lifeStep st a).1.rm := by
  rcases lifeStep_rm st a with h | ⟨i, h⟩ | ⟨rid, -, h, -⟩ |
    ⟨rid, code, -, -, -, h⟩ | ⟨rid, -, -, h⟩ | ⟨i, rid, -, -, h⟩
  · exact h.toKeepsCreds.grows
  · exact h.grows
  · rw [h]
    exact (keepsRoots_reap st.rm rid).toKeepsCreds.grows
  · rw [h]
    exact (keepsRoots_destroy st.rm rid code).toKeepsCreds.grows
  · rw [h]
    exact (keepsRoots_markTeardownComplete st.rm rid).toKeepsCreds.grows
  · rw [h]
    exact (keepsRoots_abort st.rm _).toKeepsCreds.grows

/-- An id that was handed out belongs to no active realm. -/
def UsedUp (x : Nat) (st : Life ρ) : Prop :=
  x < st.rm.nextId ∧ ∀ j, (st.rm.realms j).active = true → (st.rm.realms j).id ≠ x

theorem UsedUp.step {x : Nat} (h : UsedUp x st) (a : LifeAct) : UsedUp x (lifeStep st a).1 := by
  have hgrows := lifeStep_grows st a
  refine ⟨h.1.trans_le hgrows.nextId, ?_⟩
  intro j hj
  rcases hgrows.realm j hj with ⟨hold, hid, -⟩ | ⟨hnew, -⟩
  · rw [hid]
    exact h.2 j hold
  · have hlt := h.1
    omega

theorem UsedUp.final {x : Nat} (h : UsedUp x st) (as : List LifeAct) :
    UsedUp x (Lib.final lifeStep st as) :=
  final_invariant (fun _ a hst => hst.step a) h as

theorem UsedUp.findId {x : Nat} (h : UsedUp x st) : st.rm.findId x = none := by
  cases hfind : st.rm.findId x with
  | none => rfl
  | some j =>
    obtain ⟨hactive, hid⟩ := findId_some hfind
    exact absurd hid (h.2 j hactive)

theorem UsedUp.not_finalizes {x : Nat} (h : UsedUp x st) (a : LifeAct) : ¬ st.Finalizes a x := by
  rintro ⟨j, hactive, hid, -⟩
  exact h.2 j hactive hid

/-! ## What is freed -/

/-- When a step frees the slot `j` of an active realm. -/
inductive Frees (st : Life ρ) (j : Fin maxRealms) : LifeAct → Prop
  | wait (u : Fin maxUnits) (nohang : Bool) (hexited : (st.rm.realms j).exited = true)
      (htorn : (st.rm.realms j).teardownComplete = true) :
      Frees st j (.wait u (st.rm.realms j).id nohang)
  | waitAgain (u : Fin maxUnits) (hexited : (st.rm.realms j).exited = true)
      (htorn : (st.rm.realms j).teardownComplete = true) :
      Frees st j (.waitAgain u (st.rm.realms j).id)
  | destroyed (code : Int) (hmid : st.midway = some (.destroying (st.rm.realms j).id code))
      (hwaited : (st.rm.realms j).waitConsumed = true) : Frees st j .destroyRealm
  | orphaned (code : Int) (hmid : st.midway = some (.destroying (st.rm.realms j).parentId code))
      (hinit : (st.rm.realms j).parentId ≠ initRealmId) (hexited : (st.rm.realms j).exited = true) :
      Frees st j .destroyRealm
  | marked (hmid : st.midway = some (.marking (st.rm.realms j).id))
      (hwaited : (st.rm.realms j).waitConsumed = true) : Frees st j .markRealm
  | aborted (i : Fin maxRealms) (rid : Nat) (hx : (i, rid) ∈ st.starting)
      (hid : (st.rm.realms j).id = (st.rm.realms i).id) : Frees st j (.abort i rid)

/-- What a step does to the slot of an active realm. -/
theorem lifeStep_slot (a : LifeAct) (hj : (st.rm.realms j).active) :
    (((lifeStep st a).1.rm.realms j).active ∧
      ((lifeStep st a).1.rm.realms j).id = (st.rm.realms j).id) ∨
    st.Frees j a ∧ ((lifeStep st a).1.rm.realms j).active = false := by
  rcases lifeStep_rm st a with hheld | ⟨i, htaken⟩ | ⟨rid, ha, hrm, -⟩ |
    ⟨rid, code, rfl, hmid, hinit, hrm⟩ | ⟨rid, rfl, hmid, hrm⟩ | ⟨i, rid, rfl, hx, hrm⟩
  · have hactive := (hheld.active j).trans hj
    exact .inl ⟨hactive, (hheld.realm j hactive).2.1⟩
  · left
    rw [htaken.other_of_active hj]
    exact ⟨hj, rfl⟩
  · rw [hrm]
    rcases reap_slot st.rm rid j with hsame | ⟨-, rfl, hsame | ⟨hexited, htorn, hfreed⟩⟩
    · rw [hsame]
      exact .inl ⟨hj, rfl⟩
    · rw [hsame]
      exact .inl ⟨hj, rfl⟩
    · rcases ha with ⟨u, nohang, rfl⟩ | ⟨u, rfl⟩
      · exact .inr ⟨.wait u nohang hexited htorn, hfreed⟩
      · exact .inr ⟨.waitAgain u hexited htorn, hfreed⟩
  · rw [hrm]
    rcases destroy_slot st.rm rid code j with hsame | ⟨-, rfl, ⟨-, hsame⟩ | ⟨hexited, hfreed⟩⟩ |
      ⟨-, rfl, ⟨parent, hsame⟩ | ⟨hwaited, hfreed⟩⟩
    · rw [hsame]
      exact .inl ⟨hj, rfl⟩
    · rw [hsame]
      exact .inl ⟨hj, rfl⟩
    · exact .inr ⟨.orphaned code hmid hinit hexited, hfreed⟩
    · rw [hsame]
      exact .inl ⟨hj, rfl⟩
    · exact .inr ⟨.destroyed code hmid hwaited, hfreed⟩
  · rw [hrm]
    rcases markTeardownComplete_slot st.rm rid j with hsame | ⟨-, rfl, hsame | ⟨hwaited, hfreed⟩⟩
    · rw [hsame]
      exact .inl ⟨hj, rfl⟩
    · rw [hsame]
      exact .inl ⟨hj, rfl⟩
    · exact .inr ⟨.marked hmid hwaited, hfreed⟩
  rw [hrm]
  rcases abort_slot st.rm (st.rm.realms i).id j with hsame | ⟨-, hid, hfreed⟩
  · rw [hsame]
    exact .inl ⟨hj, rfl⟩
  · exact .inr ⟨.aborted i rid hx hid, hfreed⟩

section

variable (h : Sound st q)

include h

/-- A realm whose slot is freed has no units. -/
theorem Sound.frees_nil {a : LifeAct} (ht : Tame st a)
    (hj : (st.rm.realms j).active) (hfrees : st.Frees j a) : st.unitList j = [] := by
  cases hfrees with
  | wait u nohang hexited htorn | waitAgain u hexited htorn => exact h.settled.torn j hj htorn
  | destroyed code hmid hwaited | marked hmid hwaited => exact h.settled.midway _ hmid j hj rfl
  | orphaned code hmid hinit hexited =>
    have hdone : st.ChildrenDone st.midway := ht
    rw [hmid] at hdone
    exact hdone j hj rfl hexited
  | aborted i rid hx hid =>
    obtain ⟨hi, hirid⟩ := ht hx
    obtain rfl : j = i := h.placed.distinct j i hj hi hid
    exact (h.settled.spawner j rid hx hj hirid).1

/-- A realm without units has left the reapers. -/
theorem Sound.leftReapers (hj : (st.rm.realms j).active) (hnil : st.unitList j = []) :
    st.LeftReapers (st.rm.realms j).id := by
  intro u hu hrid
  have hz : (st.units u).phase = .zombie := by
    by_contra hz
    obtain ⟨i, -, hi, hid, hmem⟩ := h.placed.own u hu hz
    obtain rfl : i = j := h.placed.distinct i j hi hj (hid.trans hrid)
    rw [hnil] at hmem
    cases hmem
  refine ⟨hz, ?_⟩
  intro c hc
  have hrep := h.queued.rep c
  have hlen : (q c).length ≤ maxUnits := by
    simpa using hrep.nodup.length_le_card
  rw [queueOf, hrep.seg.follow hlen] at hc
  rw [(h.queued.queued c u hc).2] at hz
  cases hz

omit h in
/-- The realm that `destroy` is about has exited. -/
theorem destroy_exited {rm : RealmManager ρ} {id : Nat} (hinit : id ≠ initRealmId)
    (hdistinct : ∀ i j, (rm.realms i).active → (rm.realms j).active →
      (rm.realms i).id = (rm.realms j).id → i = j) {code : Int} {i : Fin maxRealms}
    (hi : ((rm.destroy id code).realms i).active) (hid : ((rm.destroy id code).realms i).id = id) :
    ((rm.destroy id code).realms i).exited := by
  obtain ⟨hold, hkept, -⟩ := (keepsRoots_destroy rm id code).realm i hi
  have hidOld : (rm.realms i).id = id := hkept.symm.trans hid
  have hfind : rm.findId id = some i :=
    findId_eq_some hold hidOld fun j hj hjid => hdistinct j i hj hold (hjid.trans hidOld.symm)
  unfold destroy at hi ⊢
  rw [hfind] at hi ⊢
  dsimp only at hi ⊢
  rw [if_neg hinit] at hi ⊢
  split
  · next hwaited =>
    rw [if_pos hwaited, finalizeLocked_self] at hi
    cases hi
  · rw [setRealm_self]

/-- If the realm that a reaper is at is marked as waited for, a wait has consumed its exit. -/
theorem Sound.consumed_of_midway {m : Midway} (hmid : st.midway = some m)
    (hj : (st.rm.realms j).active) (hid : (st.rm.realms j).id = m.rid)
    (hwaited : (st.rm.realms j).waitConsumed) : (st.rm.realms j).id ∈ st.consumed := by
  rcases h.settled.waited j hj hwaited with hin | ⟨-, -, hnot⟩
  · exact hin
  · exact absurd hid.symm (hnot m hmid)

/-- Why the slot may be freed, if no spawner gives up. -/
theorem Sound.freed_why {a : LifeAct} (ht : st.NoAbort a)
    (hj : (st.rm.realms j).active) (hfrees : st.Frees j a)
    (hfreed : ((lifeStep st a).1.rm.realms j).active = false) :
    (st.rm.realms j).id ∈ (lifeStep st a).1.consumed ∨
      (lifeStep st a).1.Gone (st.rm.realms j).parentId := by
  rcases lifeStep_rm st a with hheld | ⟨i, htaken⟩ | ⟨rid, ha, hrm, hin⟩ |
    ⟨rid, code, rfl, hmid, hinit, hrm⟩ | ⟨rid, rfl, hmid, hrm⟩ | ⟨i, rid, rfl, hx, -⟩
  · rw [hheld.active, hj] at hfreed
    cases hfreed
  · rw [htaken.other_of_active hj, hj] at hfreed
    cases hfreed
  · left
    rcases ha with ⟨u, nohang, rfl⟩ | ⟨u, rfl⟩
    · cases hfrees
      exact hin
    · cases hfrees
      exact hin
  · have hrest : (lifeStep st .destroyRealm).1.consumed = st.consumed ∧
        (lifeStep st .destroyRealm).1.unitList = st.unitList := by
      rw [lifeStep, Life.destroyRealm, hmid]
      dsimp only
      rw [if_neg hinit]
      exact ⟨rfl, rfl⟩
    cases hfrees with
    | destroyed code' hmid' hwaited =>
      rw [hrest.1]
      exact .inl (h.consumed_of_midway hmid' hj rfl hwaited)
    | orphaned code' hmid' hinit' hexited =>
      -- the parent is the realm that is destroyed
      right
      obtain rfl : rid = (st.rm.realms j).parentId := by
        rw [hmid] at hmid'
        cases hmid'
        rfl
      intro i hi hid
      rw [hrest.2]
      rw [hrm] at hi hid ⊢
      obtain ⟨hold, hkept, -⟩ := (keepsRoots_destroy st.rm _ code).realm i hi
      exact ⟨destroy_exited hinit h.placed.distinct hi hid,
        h.settled.midway _ hmid i hold (hkept.symm.trans hid)⟩
  · have hconsumed : (lifeStep st .markRealm).1.consumed = st.consumed := by
      rw [lifeStep, Life.markRealm, hmid]
    cases hfrees with
    | marked hmid' hwaited =>
      rw [hconsumed]
      exact .inl (h.consumed_of_midway hmid' hj rfl hwaited)
  · exact absurd hx ht

/-! ## The theorem -/

/-- Freeing a slot uses up the id of its realm. -/
theorem Sound.usedUp {a : LifeAct} {x : Nat} (hfin : st.Finalizes a x) :
    UsedUp x (lifeStep st a).1 := by
  obtain ⟨j, hj, rfl, hfreed⟩ := hfin
  have hgrows := lifeStep_grows st a
  have hlt := h.placed.ids j hj
  refine ⟨hlt.trans_le hgrows.nextId, ?_⟩
  intro i hi hid
  rcases hgrows.realm i hi with ⟨hold, hkept, -⟩ | ⟨hnew, -⟩
  · obtain rfl : i = j := h.placed.distinct i j hold hj (hkept.symm.trans hid)
    rw [hfreed] at hi
    cases hi
  · omega

theorem Sound.recyclable {a : LifeAct} (ht : Timely st a) {x : Nat}
    (hfin : st.Finalizes a x) : st.Recyclable a x := by
  obtain ⟨j, hj, rfl, hfreed⟩ := hfin
  have hfrees : st.Frees j a := by
    rcases lifeStep_slot a hj with ⟨hactive, -⟩ | ⟨hfrees, -⟩
    · rw [hactive] at hfreed
      cases hfreed
    · exact hfrees
  refine ⟨h.leftReapers hj (h.frees_nil ht.1 hj hfrees), ?_⟩
  exact (h.freed_why ht.2 hj hfrees hfreed).imp_right fun hgone => ⟨j, hj, rfl, hgone⟩

end

/-- In every run of such steps, when a slot is freed nobody needs its realm any more, and from then
on the id is not that of an active realm, so it is not freed again. -/
theorem slots_recycled_when_done {before after : List LifeAct} {a : LifeAct} {x : Nat}
    (h : Along lifeStep Timely (boot ρ) (before ++ a :: after))
    (hfin : (final lifeStep (boot ρ) before).Finalizes a x) :
    (final lifeStep (boot ρ) before).Recyclable a x ∧
      ∀ later rest, after = later ++ rest →
        (final lifeStep (boot ρ) (before ++ a :: later)).rm.findId x = none ∧
        ∀ b, ¬ (final lifeStep (boot ρ) (before ++ a :: later)).Finalizes b x := by
  rw [along_append] at h
  obtain ⟨hbefore, ht, -⟩ := h
  obtain ⟨q, hsound⟩ := sound_final (hbefore.mono fun _ _ h => h.1)
  refine ⟨hsound.recyclable ht hfin, ?_⟩
  intro later rest _
  rw [final_append, final_cons]
  have hused := (hsound.usedUp hfin).final later
  exact ⟨hused.findId, hused.not_finalizes⟩

/-- A realm with one unit has a child with one unit, which exits with a status. -/
def childExits : List LifeAct :=
  [createUser 0, .firstUnit 0 1 0 true, createUser 1, .firstUnit 1 2 1 true, .exitCurrent 1 1 7]

/-- The parent waits when the reaper is done with its child. -/
theorem slots_recycled_when_done_waited :
    Along lifeStep Timely (boot Unit)
        ((childExits ++ [.reaper 1, .destroyRealm, .markRealm]) ++ [.wait 0 2 false]) ∧
      (final lifeStep (boot Unit) (childExits ++ [.reaper 1, .destroyRealm, .markRealm])).Finalizes
        (.wait 0 2 false) 2 ∧
      (final lifeStep (boot Unit) (childExits ++ [.reaper 1, .destroyRealm, .markRealm])).Recyclable
        (.wait 0 2 false) 2 := by
  have halong : Along lifeStep Timely (boot Unit)
      ((childExits ++ [.reaper 1, .destroyRealm, .markRealm]) ++ [.wait 0 2 false]) := by
    decide +kernel
  have hfin : (final lifeStep (boot Unit)
      (childExits ++ [.reaper 1, .destroyRealm, .markRealm])).Finalizes (.wait 0 2 false) 2 :=
    ⟨1, by decide +kernel⟩
  exact ⟨halong, hfin, (slots_recycled_when_done halong hfin).1⟩

/-- The parent exits, and its reaper is faster than that of the child: the slot of the child is
freed while its unit, which points to it, is still in a reaper's queue. -/
theorem child_recycled_early :
    (final lifeStep (boot Unit) (childExits ++ [.exitCurrent 0 0 0, .reaper 0])).Finalizes
        .destroyRealm 2 ∧
      ¬ (final lifeStep (boot Unit)
        (childExits ++ [.exitCurrent 0 0 0, .reaper 0])).LeftReapers 2 := by
  refine ⟨⟨1, by decide +kernel⟩, ?_⟩
  intro hleft
  have hzombie := (hleft 1 (by decide +kernel) (by decide +kernel)).1
  revert hzombie
  decide +kernel

end Life

end Vespera.Realms
