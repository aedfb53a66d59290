import Vespera.Realm.Lifecycle

/-! # What holds while realms and units come and go

The invariant of the lifecycle, in four parts: the units that are not done belong to active realms
and are in their lists (`Placed`), the terminated ones are in exactly one reaper queue (`Queued`),
a realm whose teardown is complete, or whose reaper is at it, has no units (`Settled`), and units
are handed to `complete_termination` once (`Ledger`).

It holds along runs of steps that are `Tame`: nobody terminates a unit twice, nobody is woken that
has been terminated in the meantime, a spawner finds the realm it created, and when a realm is
destroyed its children that have exited have no units left. Each of these can fail in the code.
-/

namespace Vespera.Realms

open Function List Lib RealmManager IntrusiveQueue

namespace Life

variable {ρ : Type} {st st' : Life ρ} {q : Nat → List (Fin maxUnits)} {u : Fin maxUnits}
  {i : Fin maxRealms} {starting : List (Fin maxRealms × Nat)}

/-! ## Conditions on steps -/

variable (st)

/-- No unit of the realm was terminated before. -/
def AllRunning (i : Fin maxRealms) : Prop :=
  ∀ v ∈ st.unitList i, (st.units v).phase ≠ .terminated

/-- Who is in the realm's wait queue still waits, and is not a unit of the realm itself. -/
def WaitersWait (i : Fin maxRealms) : Prop :=
  ∀ w ∈ st.waitQueue i,
    (st.units w).active = true ∧ (st.units w).phase = .blocked ∧ w ∉ st.unitList i

instance (i : Fin maxRealms) : Decidable (st.AllRunning i) :=
  inferInstanceAs (Decidable (∀ v ∈ _, _))

instance (i : Fin maxRealms) : Decidable (st.WaitersWait i) :=
  inferInstanceAs (Decidable (∀ w ∈ _, _))

/-- The children of the realm that is about to be destroyed have no units if they have exited. -/
def ChildrenDone : Option Midway → Prop
  | some (.destroying rid _) => ∀ j, (st.rm.realms j).active = true →
      (st.rm.realms j).parentId = rid → (st.rm.realms j).exited = true → st.unitList j = []
  | _ => True

instance : (m : Option Midway) → Decidable (st.ChildrenDone m)
  | some (.destroying ..) => inferInstanceAs (Decidable (∀ _ : Fin maxRealms, _ → _ → _ → _))
  | some (.marking _) => inferInstanceAs (Decidable True)
  | none => inferInstanceAs (Decidable True)

/-- The steps that keep the invariant. -/
def Tame : LifeAct → Prop
  | .firstUnit i rid _ _ | .abort i rid =>
    (i, rid) ∈ st.starting → (st.rm.realms i).active = true ∧ (st.rm.realms i).id = rid
  | .exitCurrent u _ _ =>
    st.mayRun u = true → (st.units u).phase = .ready ∧
      ∀ i, (st.units u).parent = some i → (st.unitList i).length = 1 → st.WaitersWait i
  | .exitRealm u _ =>
    st.mayRun u = true → ∀ i, (st.units u).parent = some i → st.AllRunning i ∧ st.WaitersWait i
  | .kill rid _ => ∀ i, st.rm.findId rid = some i → st.AllRunning i ∧ st.WaitersWait i
  | .reaper cpu =>
    ∀ u, (pop st.next (st.reapers cpu)).1 = some u →
      ∀ w ∈ (st.units u).waitQueue, (st.units w).active = true ∧ (st.units w).phase = .blocked
  | .destroyRealm => st.ChildrenDone st.midway
  | .wait u _ _ | .join u _ => st.mayRun u = true → (st.units u).phase = .ready
  | _ => True

instance (a : LifeAct) : Decidable (Tame st a) :=
  match a with
  | .firstUnit .. | .abort .. => inferInstanceAs (Decidable (_ → _ ∧ _))
  | .exitCurrent .. => inferInstanceAs (Decidable (_ → _ ∧ ∀ _ : Fin maxRealms, _ → _ → _))
  | .exitRealm .. => inferInstanceAs (Decidable (_ → ∀ _ : Fin maxRealms, _ → _ ∧ _))
  | .kill .. => inferInstanceAs (Decidable (∀ _ : Fin maxRealms, _ → _ ∧ _))
  | .reaper _ => inferInstanceAs (Decidable (∀ _ : Fin maxUnits, _ → ∀ _ ∈ _, _ ∧ _))
  | .destroyRealm => inferInstanceAs (Decidable (st.ChildrenDone st.midway))
  | .wait .. | .join .. => inferInstanceAs (Decidable (_ → _))
  | .createRealm .. | .unitSpawn .. | .markRealm | .waitAgain .. | .joinAgain .. =>
    inferInstanceAs (Decidable True)

variable {st}

/-! ## The invariant -/

/-- A unit that is not done belongs to an active realm, which lists it; only such units are
listed. -/
structure Placed (st : Life ρ) : Prop where
  ids : ∀ i, (st.rm.realms i).active = true → (st.rm.realms i).id < st.rm.nextId
  distinct : ∀ i j, (st.rm.realms i).active = true → (st.rm.realms j).active = true →
    (st.rm.realms i).id = (st.rm.realms j).id → i = j
  own : ∀ u, (st.units u).active = true → (st.units u).phase ≠ .zombie →
    ∃ i, (st.units u).parent = some i ∧ (st.rm.realms i).active = true ∧
      (st.rm.realms i).id = (st.units u).rid ∧ u ∈ st.unitList i
  listed : ∀ i u, u ∈ st.unitList i → (st.units u).active = true ∧
    (st.units u).phase ≠ .zombie ∧ (st.units u).parent = some i
  nodup : ∀ i, (st.unitList i).Nodup

/-- The terminated units are in the reaper queues `q`, each in one place. -/
structure Queued (st : Life ρ) (q : Nat → List (Fin maxUnits)) : Prop where
  rep : ∀ c, IntrusiveQueue.Rep st.next (st.reapers c) (q c)
  apart : ∀ c d u, u ∈ q c → u ∈ q d → c = d
  queued : ∀ c u, u ∈ q c → (st.units u).active = true ∧ (st.units u).phase = .terminated
  reached : ∀ u, (st.units u).active = true → (st.units u).phase = .terminated → ∃ c, u ∈ q c

/-- Realms that are torn down, that a reaper is about to tear down, or that a spawner has not
given a unit yet have no units. Realms marked as waited for are, or the mark was left in the slot
by another realm and nobody will look at it. -/
structure Settled (st : Life ρ) : Prop where
  torn : ∀ i, (st.rm.realms i).active = true → (st.rm.realms i).teardownComplete = true →
    st.unitList i = []
  midway : ∀ m, st.midway = some m → ∀ i, (st.rm.realms i).active = true →
    (st.rm.realms i).id = m.rid → st.unitList i = []
  spawner : ∀ i x, (i, x) ∈ st.starting → (st.rm.realms i).active = true →
    (st.rm.realms i).id = x →
      st.unitList i = [] ∧ (st.rm.realms i).teardownComplete = false ∧
        ∀ m, st.midway = some m → m.rid ≠ x
  spawnerIds : ∀ i x, (i, x) ∈ st.starting → x < st.rm.nextId
  spawnerNodup : st.starting.Nodup
  midwayLt : ∀ m, st.midway = some m → m.rid < st.rm.nextId
  waited : ∀ i, (st.rm.realms i).active = true → (st.rm.realms i).waitConsumed = true →
    (st.rm.realms i).id ∈ st.consumed ∨ st.unitList i = [] ∧
      (i, (st.rm.realms i).id) ∉ st.starting ∧
      ∀ m, st.midway = some m → m.rid ≠ (st.rm.realms i).id

/-- Units have ids of their own, and are handed to `complete_termination` once. -/
structure Ledger (st : Life ρ) : Prop where
  distinct : ∀ u v, (st.units u).active = true → (st.units v).active = true →
    (st.units u).id = (st.units v).id → u = v
  born : ∀ u, (st.units u).active = true → (st.units u).id ∈ st.born
  bornLt : ∀ x ∈ st.born, x < st.nextUnitId
  nodup : st.handed.Nodup
  handed : ∀ x ∈ st.handed, x ∈ st.born ∧
    ∀ u, (st.units u).active = true → (st.units u).id = x → (st.units u).phase = .zombie
  seen : ∀ x ∈ st.born, x ∈ st.handed ∨
    ∃ u, (st.units u).active = true ∧ (st.units u).id = x ∧ (st.units u).phase ≠ .zombie

/-- The invariant. -/
structure Sound (st : Life ρ) (q : Nat → List (Fin maxUnits)) : Prop where
  placed : Placed st
  queued : Queued st q
  settled : Settled st
  ledger : Ledger st

theorem sound_boot : Sound (boot ρ) (fun _ => []) := by
  -- no realm and no unit is active, and every list is empty
  constructor <;> constructor <;>
    simp [boot, initialized, Realm.zero, LifeUnit.zero, rep_empty]

/-! ## What a step may change -/

/-- Neither free nor a zombie. -/
def Live (unit : LifeUnit) : Prop := unit.active = true ∧ unit.phase ≠ .zombie

/-- The realm is in the same place, and its teardown is as before. -/
structure SameRealm (a b : Realm ρ) : Prop where
  active : b.active = a.active
  id : b.id = a.id
  torn : b.teardownComplete = a.teardownComplete

theorem SameRealm.refl (a : Realm ρ) : SameRealm a a := ⟨rfl, rfl, rfl⟩

theorem SameRealm.trans {a b c : Realm ρ} (h : SameRealm a b) (h' : SameRealm b c) :
    SameRealm a c :=
  ⟨h'.active.trans h.active, h'.id.trans h.id, h'.torn.trans h.torn⟩

/-- At most the unit `gone` leaves, and no unit comes. Realms without units may be freed or
marked, or be new. The reaper may go on, be done, or start on a realm whose last unit has left;
spawners may stop, or start with a new realm. -/
structure Moves (gone : Option (Fin maxUnits)) (st st' : Life ρ) : Prop where
  known : ∀ u, (st'.units u).active → (st.units u).active ∧ (st'.units u).id = (st.units u).id
  stays : ∀ u, Live (st.units u) → gone ≠ some u → Live (st'.units u) ∧
    (st'.units u).rid = (st.units u).rid ∧ (st'.units u).parent = (st.units u).parent
  back : ∀ u, Live (st'.units u) → Live (st.units u) ∧ gone ≠ some u
  leaves : ∀ u, gone = some u → Live (st.units u)
  mem : ∀ i u, u ∈ st'.unitList i ↔ u ∈ st.unitList i ∧ gone ≠ some u
  nodup : ∀ i, (st.unitList i).Nodup → (st'.unitList i).Nodup
  nextId : st.rm.nextId ≤ st'.rm.nextId
  slot : ∀ i, SameRealm (st.rm.realms i) (st'.rm.realms i) ∨ st.unitList i = [] ∧
    ((st'.rm.realms i).active →
      ((st.rm.realms i).active ∧ (st'.rm.realms i).id = (st.rm.realms i).id ∧
        (i, (st.rm.realms i).id) ∉ st'.starting) ∨
      (st'.rm.realms i).id = st.rm.nextId ∧ st.rm.nextId < st'.rm.nextId ∧
        ∀ j, (st'.rm.realms j).active → (st'.rm.realms j).id = st.rm.nextId → j = i)
  waited : ∀ i, (st.rm.realms i).active → (st'.rm.realms i).active →
    (st'.rm.realms i).waitConsumed →
      (st.rm.realms i).waitConsumed ∨ (st'.rm.realms i).id ∈ st'.consumed
  starting : ∀ i x, (i, x) ∈ st'.starting → (i, x) ∈ st.starting ∨
    x = st.rm.nextId ∧ st.rm.nextId < st'.rm.nextId ∧ Unmarked (st'.rm.realms i)
  startingNodup : st'.starting.Nodup
  midway : ∀ m, st'.midway = some m → (∃ m₀, st.midway = some m₀ ∧ m₀.rid = m.rid) ∨
    ∃ i, (st.rm.realms i).active ∧ (st.rm.realms i).id = m.rid ∧ st.unitList i ≠ [] ∧
      st'.unitList i = []
  nextUnitId : st.nextUnitId ≤ st'.nextUnitId
  born : st'.born = st.born
  handed : st'.handed = st.handed ++ (gone.map fun u => (st.units u).id).toList
  consumed : ∀ x ∈ st.consumed, x ∈ st'.consumed

section Moves

variable {gone : Option (Fin maxUnits)} (hm : Moves gone st st')
include hm

/-- Where an active realm comes from. -/
theorem Moves.origin (hi : (st'.rm.realms i).active) :
    ((st.rm.realms i).active ∧ (st'.rm.realms i).id = (st.rm.realms i).id) ∨
      st.unitList i = [] ∧ (st'.rm.realms i).id = st.rm.nextId ∧ st.rm.nextId < st'.rm.nextId ∧
        ∀ j, (st'.rm.realms j).active → (st'.rm.realms j).id = st.rm.nextId → j = i := by
  rcases hm.slot i with hsame | ⟨hnil, hold⟩
  · exact .inl ⟨hsame.active ▸ hi, hsame.id⟩
  · exact (hold hi).imp (fun h => ⟨h.1, h.2.1⟩) fun h => ⟨hnil, h⟩

theorem Moves.nil (h : st.unitList i = []) : st'.unitList i = [] := by
  rw [eq_nil_iff_forall_not_mem] at h ⊢
  exact fun u hu => h u ((hm.mem i u).mp hu).1

theorem Placed.moves (h : Placed st) : Placed st' where
  ids := by
    intro i hi
    rcases hm.origin hi with ⟨hi', hid⟩ | ⟨-, hid, hlt, -⟩
    · exact hid ▸ (h.ids i hi').trans_le hm.nextId
    · exact hid ▸ hlt
  distinct := by
    intro i j hi hj hij
    -- the id of a new realm is larger than all others
    rcases hm.origin hi with ⟨hi', hid⟩ | ⟨-, hid, -, honly⟩
    · rcases hm.origin hj with ⟨hj', hid'⟩ | ⟨-, hid', -⟩
      · exact h.distinct i j hi' hj' (hid ▸ hid' ▸ hij)
      · have hlt := h.ids i hi'
        omega
    · exact (honly j hj (hij ▸ hid)).symm
  own := by
    intro u hu hz
    obtain ⟨hlive, hstays⟩ := hm.back u ⟨hu, hz⟩
    obtain ⟨i, hp, hactive, hid, hmem⟩ := h.own u hlive.1 hlive.2
    obtain ⟨-, hrid, hparent⟩ := hm.stays u hlive hstays
    rcases hm.slot i with hsame | ⟨hnil, -⟩
    · exact ⟨i, hparent.trans hp, hsame.active.trans hactive,
        hsame.id.trans (hid.trans hrid.symm), (hm.mem i u).mpr ⟨hmem, hstays⟩⟩
    · rw [hnil] at hmem
      cases hmem
  listed := by
    intro i u hu
    obtain ⟨hmem, hstays⟩ := (hm.mem i u).mp hu
    obtain ⟨hactive, hz, hp⟩ := h.listed i u hmem
    obtain ⟨hlive, -, hparent⟩ := hm.stays u ⟨hactive, hz⟩ hstays
    exact ⟨hlive.1, hlive.2, hparent.trans hp⟩
  nodup i := hm.nodup i (h.nodup i)

/-- A reaper is not at a realm that had no units, unless it was before. -/
theorem Moves.midway_ne (h : Settled st) (hplaced : Placed st) {x : Nat}
    (hx : x = st.rm.nextId ∨ ∃ i, (st.rm.realms i).active ∧ (st.rm.realms i).id = x ∧
      st.unitList i = [] ∧ ∀ m, st.midway = some m → m.rid ≠ x) :
    ∀ m, st'.midway = some m → m.rid ≠ x := by
  rintro m hmid rfl
  rcases hm.midway m hmid with ⟨m₀, hm0, hrid⟩ | ⟨k, hk, hid, hne, -⟩
  · rcases hx with hnew | ⟨i, -, -, -, hat⟩
    · exact (hrid ▸ hnew ▸ h.midwayLt m₀ hm0).false
    · exact hat m₀ hm0 hrid
  · rcases hx with hnew | ⟨i, hi, hid', hnil, -⟩
    · exact (hid ▸ hnew ▸ hplaced.ids k hk).false
    · exact hne (hplaced.distinct i k hi hk (hid'.trans hid.symm) ▸ hnil)

theorem Settled.moves (h : Settled st) (hplaced : Placed st) : Settled st' where
  torn := by
    intro i hi htorn
    rcases hm.slot i with hsame | ⟨hnil, -⟩
    · exact hm.nil (h.torn i (hsame.active ▸ hi) (hsame.torn ▸ htorn))
    · exact hm.nil hnil
  midway := by
    intro m hmid i hi hid
    rcases hm.slot i with hsame | ⟨hnil, -⟩
    · rw [hsame.active] at hi
      rw [hsame.id] at hid
      rcases hm.midway m hmid with ⟨m₀, hm0, hrid⟩ | ⟨k, hk, hid', -, hnil⟩
      · exact hm.nil (h.midway m₀ hm0 i hi (hid.trans hrid.symm))
      · exact hplaced.distinct i k hi hk (hid.trans hid'.symm) ▸ hnil
    · exact hm.nil hnil
  spawner := by
    intro i x hx hi hid
    rcases hm.starting i x hx with hx' | ⟨hnew, hlt, hmarks⟩
    · have hold := h.spawnerIds i x hx'
      rcases hm.slot i with hsame | ⟨-, hslot⟩
      · rw [hsame.active] at hi
        rw [hsame.id] at hid
        obtain ⟨hnil, htorn, hat⟩ := h.spawner i x hx' hi hid
        exact ⟨hm.nil hnil, hsame.torn.trans htorn,
          hm.midway_ne h hplaced (.inr ⟨i, hi, hid, hnil, hat⟩)⟩
      · rcases hslot hi with ⟨-, hid', hnot⟩ | ⟨hid', -, -⟩
        · exact absurd (by rwa [← hid', hid]) hnot
        · omega
    · rcases hm.origin hi with ⟨hi', hid'⟩ | ⟨hnil, -⟩
      · have hold := hplaced.ids i hi'
        omega
      · exact ⟨hm.nil hnil, hmarks.1, hm.midway_ne h hplaced (.inl hnew)⟩
  spawnerIds := by
    intro i x hx
    rcases hm.starting i x hx with hx' | ⟨rfl, hlt, -⟩
    · exact (h.spawnerIds i x hx').trans_le hm.nextId
    · exact hlt
  spawnerNodup := hm.startingNodup
  midwayLt := by
    intro m hmid
    rcases hm.midway m hmid with ⟨m₀, hm0, hrid⟩ | ⟨i, hi, hid, -⟩
    · exact hrid ▸ (h.midwayLt m₀ hm0).trans_le hm.nextId
    · exact hid ▸ (hplaced.ids i hi).trans_le hm.nextId
  waited := by
    intro i hi hwaited
    rcases hm.origin hi with ⟨hi', hid⟩ | ⟨hnil, hid, -⟩
    · rcases hm.waited i hi' hi hwaited with hold | hin
      · rw [hid]
        refine (h.waited i hi' hold).imp (hm.consumed _) ?_
        rintro ⟨hnil, hx, hat⟩
        refine ⟨hm.nil hnil, ?_, hm.midway_ne h hplaced (.inr ⟨i, hi', rfl, hnil, hat⟩)⟩
        intro hc
        rcases hm.starting _ _ hc with hc | ⟨hnew, -⟩
        · exact hx hc
        · exact (hnew ▸ hplaced.ids i hi').false
      · exact .inl hin
    -- the mark was left in the slot by another realm
    refine .inr ⟨hm.nil hnil, ?_, hm.midway_ne h hplaced (.inl hid)⟩
    intro hc
    rcases hm.starting _ _ hc with hc | ⟨-, -, hmarks⟩
    · exact (hid ▸ h.spawnerIds _ _ hc).false
    · rw [hmarks.2.1] at hwaited
      cases hwaited

theorem Ledger.moves (h : Ledger st) : Ledger st' where
  distinct := by
    intro u v hu hv huv
    obtain ⟨hu', hid⟩ := hm.known u hu
    obtain ⟨hv', hid'⟩ := hm.known v hv
    exact h.distinct u v hu' hv' (hid ▸ hid' ▸ huv)
  born := by
    intro u hu
    obtain ⟨hu', hid⟩ := hm.known u hu
    rw [hid, hm.born]
    exact h.born u hu'
  bornLt := by
    rw [hm.born]
    exact fun x hx => (h.bornLt x hx).trans_le hm.nextUnitId
  nodup := by
    rw [hm.handed]
    cases hgone : gone with
    | none => simpa using h.nodup
    | some u =>
      obtain ⟨hactive, hz⟩ := hm.leaves u hgone
      refine h.nodup.append (nodup_singleton _) ?_
      rintro x hx (_ | ⟨_, hx'⟩)
      · exact hz ((h.handed _ hx).2 u hactive rfl)
      · cases hx'
  handed := by
    rw [hm.handed, hm.born]
    intro x hx
    -- who is not a zombie was none before, and has not left
    have hzombie : ∀ u, (st'.units u).active → (Live (st.units u) → gone = some u) →
        (st'.units u).phase = .zombie := by
      intro u hu hdone
      by_contra hz
      obtain ⟨hlive, hstays⟩ := hm.back u ⟨hu, hz⟩
      exact hstays (hdone hlive)
    rcases mem_append.mp hx with hx | hx
    · obtain ⟨hborn, hz⟩ := h.handed x hx
      refine ⟨hborn, fun u hu hid => hzombie u hu fun hlive => ?_⟩
      exact absurd (hz u hlive.1 ((hm.known u hu).2.symm.trans hid)) hlive.2
    obtain ⟨v, hgone, rfl⟩ : ∃ v, gone = some v ∧ (st.units v).id = x := by
      simpa [Option.mem_toList] using hx
    have hv := (hm.leaves v hgone).1
    refine ⟨h.born v hv, fun u hu hid => hzombie u hu fun hlive => ?_⟩
    rw [h.distinct u v hlive.1 hv ((hm.known u hu).2.symm.trans hid)]
    exact hgone
  seen := by
    rw [hm.handed, hm.born]
    intro x hx
    rcases h.seen x hx with hdone | ⟨u, hu, hid, hz⟩
    · exact .inl (mem_append_left _ hdone)
    by_cases hgone : gone = some u
    · exact .inl (by simp [hgone, hid])
    · obtain ⟨hlive, -⟩ := hm.stays u ⟨hu, hz⟩ hgone
      exact .inr ⟨u, hlive.1, (hm.known u hlive.1).2.trans hid, hlive.2⟩

end Moves

/-! ## Changes that do not matter -/

/-- The unit is in the same place, and done or not as before. -/
structure Kin (a b : LifeUnit) : Prop where
  active : b.active = a.active
  id : b.id = a.id
  rid : b.rid = a.rid
  parent : b.parent = a.parent
  zombie : b.phase = .zombie ↔ a.phase = .zombie

theorem Kin.refl (a : LifeUnit) : Kin a a := ⟨rfl, rfl, rfl, rfl, Iff.rfl⟩

theorem Kin.trans {a b c : LifeUnit} (h : Kin a b) (h' : Kin b c) : Kin a c :=
  ⟨h'.active.trans h.active, h'.id.trans h.id, h'.rid.trans h.rid, h'.parent.trans h.parent,
    h'.zombie.trans h.zombie⟩

theorem Kin.live {a b : LifeUnit} (h : Kin a b) : Live b ↔ Live a := by
  unfold Live
  rw [h.active, ne_eq, ne_eq, h.zombie]

/-- The two states have the same realms and units, at most in other queues. -/
structure Near (st st' : Life ρ) : Prop where
  realm : ∀ i, SameRealm (st.rm.realms i) (st'.rm.realms i)
  unit : ∀ u, Kin (st.units u) (st'.units u)
  waited : ∀ i, (st'.rm.realms i).waitConsumed = (st.rm.realms i).waitConsumed
  nextId : st'.rm.nextId = st.rm.nextId
  unitList : st'.unitList = st.unitList
  nextUnitId : st'.nextUnitId = st.nextUnitId
  midway : st'.midway = st.midway
  starting : st'.starting = st.starting
  born : st'.born = st.born
  handed : st'.handed = st.handed
  consumed : st'.consumed = st.consumed

theorem Near.refl (st : Life ρ) : Near st st :=
  ⟨fun _ => .refl _, fun _ => .refl _, fun _ => rfl, rfl, rfl, rfl, rfl, rfl, rfl, rfl, rfl⟩

theorem Near.trans {st'' : Life ρ} (h : Near st st') (h' : Near st' st'') : Near st st'' where
  realm i := (h.realm i).trans (h'.realm i)
  unit u := (h.unit u).trans (h'.unit u)
  waited i := (h'.waited i).trans (h.waited i)
  nextId := h'.nextId.trans h.nextId
  unitList := h'.unitList.trans h.unitList
  nextUnitId := h'.nextUnitId.trans h.nextUnitId
  midway := h'.midway.trans h.midway
  starting := h'.starting.trans h.starting
  born := h'.born.trans h.born
  handed := h'.handed.trans h.handed
  consumed := h'.consumed.trans h.consumed

/-- The two states differ in nothing that the invariant is about. -/
structure Alike (st st' : Life ρ) : Prop extends Near st st' where
  terminated : ∀ u, (st'.units u).phase = .terminated ↔ (st.units u).phase = .terminated
  next : st'.next = st.next
  reapers : st'.reapers = st.reapers

theorem Alike.refl (st : Life ρ) : Alike st st := ⟨.refl st, fun _ => Iff.rfl, rfl, rfl⟩

theorem Alike.trans {st'' : Life ρ} (h : Alike st st') (h' : Alike st' st'') : Alike st st'' :=
  ⟨h.toNear.trans h'.toNear, fun u => (h'.terminated u).trans (h.terminated u),
    h'.next.trans h.next, h'.reapers.trans h.reapers⟩

theorem Near.moves (ha : Near st st') (h : Settled st) : Moves none st st' where
  known u hu := ⟨(ha.unit u).active ▸ hu, (ha.unit u).id⟩
  stays u hu _ := ⟨(ha.unit u).live.mpr hu, (ha.unit u).rid, (ha.unit u).parent⟩
  back u hu := ⟨(ha.unit u).live.mp hu, nofun⟩
  leaves := nofun
  mem i u := by simp [ha.unitList]
  nodup i hi := by rwa [ha.unitList]
  nextId := ha.nextId.ge
  slot i := .inl (ha.realm i)
  waited i _ _ hwaited := .inl (ha.waited i ▸ hwaited)
  starting i x hx := .inl (ha.starting ▸ hx)
  startingNodup := ha.starting ▸ h.spawnerNodup
  midway m hmid := .inl ⟨m, ha.midway ▸ hmid, rfl⟩
  nextUnitId := ha.nextUnitId.ge
  born := ha.born
  handed := by simp [ha.handed]
  consumed x hx := ha.consumed ▸ hx

theorem Queued.alike (h : Queued st q) (ha : Alike st st') : Queued st' q where
  rep := by
    intro c
    rw [ha.next, ha.reapers]
    exact h.rep c
  apart := h.apart
  queued := by
    intro c u hu
    obtain ⟨hactive, hphase⟩ := h.queued c u hu
    exact ⟨(ha.unit u).active.trans hactive, (ha.terminated u).mpr hphase⟩
  reached := by
    intro u hu hphase
    rw [(ha.unit u).active] at hu
    exact h.reached u hu ((ha.terminated u).mp hphase)

theorem Sound.moves {gone : Option (Fin maxUnits)} {q' : Nat → List (Fin maxUnits)}
    (h : Sound st q) (hm : Moves gone st st') (hq : Queued st' q') : Sound st' q' :=
  ⟨h.placed.moves hm, hq, h.settled.moves hm h.placed, h.ledger.moves hm⟩

theorem Sound.alike (h : Sound st q) (ha : Alike st st') : Sound st' q :=
  h.moves (ha.toNear.moves h.settled) (h.queued.alike ha)

/-! ### Which changes these are -/

/-- One realm, in the fields that do not matter. -/
theorem alike_setRealm (st : Life ρ) {r : Realm ρ}
    (h : SameRealm (st.rm.realms i) r) (hwaited : r.waitConsumed = (st.rm.realms i).waitConsumed) :
    Alike st { st with rm := st.rm.setRealm i r } := by
  refine { Alike.refl st with realm := ?_, waited := ?_ }
  · exact (forall_update_iff _ fun j => SameRealm (st.rm.realms j)).mpr ⟨h, fun _ _ => .refl _⟩
  · exact (forall_update_iff _ fun j (r : Realm ρ) =>
      r.waitConsumed = (st.rm.realms j).waitConsumed).mpr ⟨hwaited, fun _ _ => rfl⟩

/-- One unit, in the fields that do not matter or in its queue. -/
theorem near_setUnit (st : Life ρ) {f : LifeUnit → LifeUnit}
    (h : Kin (st.units u) (f (st.units u))) : Near st (st.setUnit u f) := by
  exact { Near.refl st with
    unit := (forall_update_iff _ fun v => Kin (st.units v)).mpr ⟨h, fun _ _ => .refl _⟩ }

theorem alike_setUnit {f : LifeUnit → LifeUnit} (h : Kin (st.units u) (f (st.units u)))
    (hterm : (f (st.units u)).phase = .terminated ↔ (st.units u).phase = .terminated) :
    Alike st (st.setUnit u f) := by
  refine ⟨near_setUnit st h, ?_, rfl, rfl⟩
  exact (forall_update_iff _ fun v (unit : LifeUnit) =>
    unit.phase = .terminated ↔ (st.units v).phase = .terminated).mpr ⟨hterm, fun _ _ => Iff.rfl⟩

theorem alike_records {records : Fin maxExitRecords → Option (Nat × Int)} :
    Alike st { st with records := records } :=
  { Alike.refl st with }

theorem alike_waitQueue (st : Life ρ) (waitQueue : Fin maxRealms → List (Fin maxUnits)) :
    Alike st { st with waitQueue := waitQueue } :=
  { Alike.refl st with }

theorem alike_table {rm : RealmManager ρ} (hnext : rm.nextId = st.rm.nextId)
    (hrealms : rm.realms = st.rm.realms) : Alike st { st with rm := rm } := by
  refine { Alike.refl st with nextId := hnext, realm := ?_, waited := ?_ }
  all_goals dsimp only; rw [hrealms]
  · exact fun _ => .refl _
  · exact fun _ => rfl

variable (st)

theorem alike_giveStatus (i : Fin maxRealms) (code : Int) : Alike st (st.giveStatus i code) :=
  { Alike.refl st with }

theorem alike_store (rid : Nat) (code : Int) : Alike st (st.store rid code) := by
  rw [store]
  split
  · exact .refl st
  · exact alike_records

theorem alike_consume (rid : Nat) (code : Int) : Alike st (st.consume rid code).1 := by
  rw [consume]
  split
  · exact .refl st
  · split
    · exact .refl st
    · exact alike_records

theorem alike_finalizeRealmExit (i : Fin maxRealms) (code : Int) :
    Alike st (st.finalizeRealmExit i code) := by
  rw [finalizeRealmExit]
  exact (alike_store st _ code).trans (alike_setRealm _ ⟨rfl, rfl, rfl⟩ rfl)

variable {st}

/-- A unit that waits, or already runs, is woken. -/
theorem alike_wake
    (h : (st.units u).phase = .blocked ∨ (st.units u).phase = .ready) : Alike st (st.wake u) := by
  refine alike_setUnit ⟨rfl, rfl, rfl, rfl, ?_⟩ ?_
  · rcases h with h | h <;> simp [h]
  · rcases h with h | h <;> simp [h]

theorem wake_phase {v : Fin maxUnits}
    (h : (st.units v).phase = .blocked ∨ (st.units v).phase = .ready) :
    ((st.wake u).units v).phase = .blocked ∨ ((st.wake u).units v).phase = .ready := by
  by_cases hv : v = u
  · subst hv
    right
    simp [wake, setUnit]
  · simpa [wake, setUnit, update_of_ne hv] using h

theorem alike_foldl_wake (ws : List (Fin maxUnits))
    (h : ∀ w ∈ ws, (st.units w).phase = .blocked ∨ (st.units w).phase = .ready) :
    Alike st (ws.foldl wake st) := by
  induction ws generalizing st with
  | nil => exact .refl st
  | cons w ws ih =>
    have hone := alike_wake (h w mem_cons_self)
    refine hone.trans (ih ?_)
    intro v hv
    exact wake_phase (h v (mem_cons_of_mem _ hv))

theorem alike_wakeAll
    (h : ∀ w ∈ st.waitQueue i, (st.units w).phase = .blocked) : Alike st (st.wakeAll i) :=
  (alike_foldl_wake _ (fun w hw => .inl (h w hw))).trans (alike_waitQueue _ _)

/-! ## Ending units -/

/-- A unit ends and goes to a reaper. -/
def endUnit (st : Life ρ) (cpu : Nat) (code : Int) (u : Fin maxUnits) : Life ρ :=
  (st.setUnit u fun unit => { unit with exitCode := code, phase := .terminated }).enqueue cpu u

theorem finishTerminateUnit_eq {code : Int} :
    finishTerminateUnit code st u = st.endUnit (st.units u).cpuId code u := rfl

theorem endUnit_units_of_ne {st : Life ρ} {cpu : Nat} {code : Int} {v : Fin maxUnits}
    (h : v ≠ u) : (st.endUnit cpu code u).units v = st.units v := by
  simp only [endUnit, enqueue, setUnit, update_of_ne h]

theorem endUnit_phase {st : Life ρ} {cpu : Nat} {code : Int} {u : Fin maxUnits} :
    ((st.endUnit cpu code u).units u).phase = .terminated := by
  simp only [endUnit, enqueue, setUnit, update_self]

/-- A unit that is neither terminated nor done goes into one reaper queue. -/
theorem Sound.endUnit (h : Sound st q) (hactive : (st.units u).active)
    (hterm : (st.units u).phase ≠ .terminated) (hz : (st.units u).phase ≠ .zombie) (cpu : Nat)
    (code : Int) : Sound (st.endUnit cpu code u) (update q cpu (q cpu ++ [u])) := by
  have hnear : Near st (st.endUnit cpu code u) := by
    have hone := near_setUnit st (f := fun unit =>
      { unit with exitCode := code, phase := Phase.terminated }) (u := u)
      ⟨rfl, rfl, rfl, rfl, by simp [hz]⟩
    exact { hone with }
  have hnew : ∀ c, u ∉ q c := fun c hc => hterm (h.queued.queued c u hc).2
  have hmem : ∀ c v, v ∈ update q cpu (q cpu ++ [u]) c ↔ v ∈ q c ∨ c = cpu ∧ v = u := by
    intro c v
    by_cases hc : c = cpu
    · simp [hc]
    · simp [hc]
  obtain ⟨hrep, hframe⟩ := push_rep (h.queued.rep cpu) (hnew cpu)
  refine h.moves (hnear.moves h.settled) ⟨?_, ?_, ?_, ?_⟩
  · intro c
    by_cases hc : c = cpu
    · subst hc
      simp only [Life.endUnit, enqueue, setUnit, update_self]
      exact hrep
    simp only [Life.endUnit, enqueue, setUnit, update_of_ne hc]
    refine (h.queued.rep c).frame ?_
    intro v hv
    refine hframe v ?_
    intro hin
    rcases mem_cons.mp hin with rfl | hin
    · exact hnew c hv
    · exact hc (h.queued.apart c cpu v hv hin)
  · intro c d v hc hd
    -- the new unit is in one queue, the others are where they were
    rcases (hmem c v).mp hc with hc' | ⟨rfl, rfl⟩
    · rcases (hmem d v).mp hd with hd' | ⟨rfl, rfl⟩
      · exact h.queued.apart c d v hc' hd'
      · exact absurd hc' (hnew c)
    · rcases (hmem d v).mp hd with hd' | ⟨rfl, -⟩
      · exact absurd hd' (hnew d)
      · rfl
  · intro c v hv
    rcases (hmem c v).mp hv with hin | ⟨-, rfl⟩
    · have hvu : v ≠ u := fun hvu => hnew c (hvu ▸ hin)
      rw [endUnit_units_of_ne hvu]
      exact h.queued.queued c v hin
    · exact ⟨(hnear.unit v).active.trans hactive, endUnit_phase⟩
  intro v hv hphase
  by_cases hvu : v = u
  · exact ⟨cpu, (hmem cpu v).mpr (.inr ⟨rfl, hvu⟩)⟩
  · rw [endUnit_units_of_ne hvu] at hv hphase
    obtain ⟨c, hc⟩ := h.queued.reached v hv hphase
    exact ⟨c, (hmem c v).mpr (.inl hc)⟩

/-- What ending a list of units leaves alone. -/
structure EndedOnly (l : List (Fin maxUnits)) (st st' : Life ρ) : Prop where
  rm : st'.rm = st.rm
  unitList : st'.unitList = st.unitList
  waitQueue : st'.waitQueue = st.waitQueue
  records : st'.records = st.records
  status : st'.status = st.status
  starting : st'.starting = st.starting
  consumed : st'.consumed = st.consumed
  others : ∀ u, u ∉ l → st'.units u = st.units u
  ended : ∀ u ∈ l, (st'.units u).phase = .terminated

theorem endedOnly_finish (l : List (Fin maxUnits)) (code : Int) (st : Life ρ) :
    EndedOnly l st (l.foldl (finishTerminateUnit code) st) := by
  induction l generalizing st with
  | nil => exact ⟨rfl, rfl, rfl, rfl, rfl, rfl, rfl, fun _ _ => rfl, fun _ h => nomatch h⟩
  | cons u l ih =>
    have hrest := ih (finishTerminateUnit code st u)
    refine { hrest with others := ?_, ended := ?_ }
    · intro v hv
      rw [mem_cons, not_or] at hv
      exact (hrest.others v hv.2).trans (endUnit_units_of_ne hv.1)
    intro v hv
    by_cases hl : v ∈ l
    · exact hrest.ended v hl
    · obtain rfl : v = u := (mem_cons.mp hv).resolve_right hl
      rw [foldl_cons, hrest.others v hl]
      exact endUnit_phase

theorem Sound.finishAll {l : List (Fin maxUnits)} (code : Int) (h : Sound st q) (hl : l.Nodup)
    (hlive : ∀ u ∈ l, (st.units u).active ∧ (st.units u).phase ≠ .terminated ∧
      (st.units u).phase ≠ .zombie) : ∃ q', Sound (l.foldl (finishTerminateUnit code) st) q' := by
  induction l generalizing st q with
  | nil => exact ⟨q, h⟩
  | cons u l ih =>
    obtain ⟨hactive, hterm, hz⟩ := hlive u mem_cons_self
    obtain ⟨hu, hl⟩ := nodup_cons.mp hl
    refine ih (h.endUnit hactive hterm hz (st.units u).cpuId code) hl ?_
    intro v hv
    have hne : v ≠ u := fun hvu => hu (hvu ▸ hv)
    rw [finishTerminateUnit_eq, endUnit_units_of_ne hne]
    exact hlive v (mem_cons_of_mem _ hv)

/-- The waiters of a realm are not touched by what comes before they are woken. -/
theorem waitersWait_units (h : st.WaitersWait i) (hq : st'.waitQueue = st.waitQueue)
    (hunits : ∀ u, u ∉ st.unitList i → st'.units u = st.units u) :
    ∀ w ∈ st'.waitQueue i, (st'.units w).phase = .blocked := by
  intro w hw
  rw [hq] at hw
  obtain ⟨-, hphase, hnot⟩ := h w hw
  rw [hunits w hnot]
  exact hphase

theorem finalizeRealmExit_keeps (st : Life ρ) (i : Fin maxRealms) (code : Int) :
    (st.finalizeRealmExit i code).waitQueue = st.waitQueue ∧
      (st.finalizeRealmExit i code).units = st.units ∧
      (st.finalizeRealmExit i code).unitList = st.unitList := by
  rw [finalizeRealmExit, store]
  split <;> exact ⟨rfl, rfl, rfl⟩

/-- `exit_current_realm` and `kill_realm`. -/
theorem Sound.endRealm (h : Sound st q) (hrun : st.AllRunning i)
    (hwait : st.WaitersWait i) (code unitCode : Int) : ∃ q', Sound
    (st.endRealm i code unitCode) q' := by
  rw [Life.endRealm]
  have halike := (alike_giveStatus st i code).trans (alike_finalizeRealmExit _ i code)
  obtain ⟨hq, hunits, hlist⟩ := finalizeRealmExit_keeps (st.giveStatus i code) i code
  generalize (st.giveStatus i code).finalizeRealmExit i code = st1 at halike hq hunits hlist
  have hlist1 : st1.unitList = st.unitList := hlist
  have hunits1 : st1.units = st.units := hunits
  rw [hlist1]
  have h1 := h.alike halike
  obtain ⟨q2, h2⟩ := h1.finishAll unitCode (h.placed.nodup i) (by
    intro u hu
    obtain ⟨hactive, hz, -⟩ := h.placed.listed i u hu
    rw [hunits1]
    exact ⟨hactive, hrun u hu, hz⟩)
  have honly := endedOnly_finish (st.unitList i) unitCode st1
  refine ⟨q2, h2.alike (alike_wakeAll ?_)⟩
  refine waitersWait_units hwait (honly.waitQueue.trans hq) ?_
  intro u hu
  rw [honly.others u hu, hunits1]

/-- `exit_current`. -/
theorem Sound.exitCurrent (h : Sound st q) (hactive : (st.units u).active)
    (hready : (st.units u).phase = .ready)
    (hwait : ∀ i, (st.units u).parent = some i → (st.unitList i).length = 1 → st.WaitersWait i)
    (cpu : Nat) (code : Int) : ∃ q', Sound (st.exitCurrent u cpu code) q' := by
  obtain ⟨i, hparent, -, -, hmem⟩ := h.placed.own u hactive (by rw [hready]; decide)
  rw [Life.exitCurrent, hparent]
  dsimp only
  have hfinish : ∀ {st1 : Life ρ}, Alike st st1 →
      (st1.units u).phase ≠ .terminated → ∃ q', Sound (st1.endUnit cpu code u) q' := by
    intro st1 halike hterm
    refine ⟨_, (h.alike halike).endUnit ((halike.unit u).active.trans hactive) hterm ?_ cpu code⟩
    intro hz
    have hz' := (halike.unit u).zombie.mp hz
    rw [hready] at hz'
    cases hz'
  split
  · rename_i hlast
    have hwaiters := hwait i hparent hlast
    have halike1 := (alike_giveStatus st i code).trans (alike_finalizeRealmExit _ i code)
    obtain ⟨hq, hunits, -⟩ := finalizeRealmExit_keeps (st.giveStatus i code) i code
    have halike := halike1.trans (alike_wakeAll (waitersWait_units hwaiters hq
      (fun v _ => by rw [hunits]; rfl)))
    refine hfinish halike ?_
    intro hterm
    have hterm' := (halike.terminated u).mp hterm
    rw [hready] at hterm'
    cases hterm'
  refine hfinish (alike_giveStatus st i code) ?_
  intro hterm
  have hterm' : (st.units u).phase = .terminated := hterm
  rw [hready] at hterm'
  cases hterm'

/-! ## Units that leave -/

/-- The unit `u` of the realm in slot `i` is taken from the queue of `c`, of which `rest` is left;
its slot is freed or holds a zombie, and if the realm has no units left a reaper is at it. -/
structure Leaves (u : Fin maxUnits) (i : Fin maxRealms) (c : Nat) (rest : List (Fin maxUnits))
    (q : Nat → List (Fin maxUnits)) (st st' : Life ρ) : Prop where
  rm : st'.rm = st.rm
  unitList : st'.unitList = update st.unitList i ((st.unitList i).erase u)
  others : ∀ v, v ≠ u → Kin (st.units v) (st'.units v) ∧
    ((st'.units v).phase = .terminated ↔ (st.units v).phase = .terminated)
  self : (st'.units u).active = true →
    (st'.units u).phase = .zombie ∧ (st'.units u).id = (st.units u).id
  rep : ∀ d, IntrusiveQueue.Rep st'.next (st'.reapers d) (update q c rest d)
  midway : ∀ m, st'.midway = some m → m.rid = (st.rm.realms i).id ∧ st'.unitList i = []
  starting : st'.starting = st.starting
  nextUnitId : st'.nextUnitId = st.nextUnitId
  born : st'.born = st.born
  handed : st'.handed = st.handed ++ [(st.units u).id]
  consumed : st'.consumed = st.consumed

section Leaving

variable {u : Fin maxUnits} {i : Fin maxRealms} {c : Nat} {rest : List (Fin maxUnits)}

theorem Leaves.moves (hl : Leaves u i c rest q st st') (h : Sound st q)
    (hparent : (st.units u).parent = some i) (hlive : Live (st.units u)) :
    Moves (some u) st st' where
  known v hv := by
    by_cases hvu : v = u
    · subst hvu
      exact ⟨hlive.1, (hl.self hv).2⟩
    · obtain ⟨hkin, -⟩ := hl.others v hvu
      exact ⟨hkin.active ▸ hv, hkin.id⟩
  stays v hv hne := by
    obtain ⟨hkin, -⟩ := hl.others v (fun hvu => hne (congrArg some hvu.symm))
    exact ⟨hkin.live.mpr hv, hkin.rid, hkin.parent⟩
  back v hv := by
    have hvu : v ≠ u := by
      rintro rfl
      exact hv.2 (hl.self hv.1).1
    exact ⟨(hl.others v hvu).1.live.mp hv, fun hc => hvu (Option.some.inj hc).symm⟩
  leaves v hv := Option.some.inj hv ▸ hlive
  mem j v := by
    rw [hl.unitList]
    by_cases hj : j = i
    · subst hj
      rw [update_self, (h.placed.nodup j).mem_erase_iff, and_comm, ne_comm, ne_eq, ne_eq,
        Option.some.injEq]
    rw [update_of_ne hj]
    refine ⟨fun hv => ⟨hv, ?_⟩, And.left⟩
    rintro ⟨⟩
    exact hj (Option.some.inj ((h.placed.listed j u hv).2.2.symm.trans hparent))
  nodup := by
    rw [hl.unitList]
    intro j hj
    by_cases hji : j = i
    · subst hji
      rw [update_self]
      exact hj.erase u
    · rwa [update_of_ne hji]
  nextId := by rw [hl.rm]
  slot j := .inl (hl.rm ▸ .refl _)
  waited j _ _ hwaited := .inl (hl.rm ▸ hwaited)
  starting j x hx := .inl (hl.starting ▸ hx)
  startingNodup := hl.starting ▸ h.settled.spawnerNodup
  midway m hm := by
    obtain ⟨j, hp, hactive, -, hmem⟩ := h.placed.own u hlive.1 hlive.2
    obtain rfl : j = i := Option.some.inj (hp.symm.trans hparent)
    obtain ⟨hrid, hnil⟩ := hl.midway m hm
    exact .inr ⟨j, hactive, hrid.symm, ne_nil_of_mem hmem, hnil⟩
  nextUnitId := hl.nextUnitId.ge
  born := hl.born
  handed := hl.handed
  consumed x hx := hl.consumed ▸ hx

/-- What is still queued when the first unit of one queue is taken. -/
theorem Queued.mem_rest (h : Queued st q) (hq : q c = u :: rest) {d : Nat} {v : Fin maxUnits}
    (hv : v ∈ update q c rest d) : v ∈ q d ∧ v ≠ u := by
  have hnodup := (h.rep c).nodup
  rw [hq] at hnodup
  by_cases hd : d = c
  · subst hd
    rw [update_self] at hv
    refine ⟨by rw [hq]; exact mem_cons_of_mem _ hv, ?_⟩
    rintro rfl
    exact (nodup_cons.mp hnodup).1 hv
  · rw [update_of_ne hd] at hv
    refine ⟨hv, ?_⟩
    rintro rfl
    exact hd (h.apart d c v hv (by rw [hq]; exact mem_cons_self))

theorem Queued.leave (h : Queued st q) (hl : Leaves u i c rest q st st') (hq : q c = u :: rest) :
    Queued st' (update q c rest) := by
  refine ⟨hl.rep, ?_, ?_, ?_⟩
  · intro d e v hd he
    exact h.apart d e v (h.mem_rest hq hd).1 (h.mem_rest hq he).1
  · intro d v hv
    obtain ⟨hmem, hvu⟩ := h.mem_rest hq hv
    obtain ⟨hactive, hphase⟩ := h.queued d v hmem
    obtain ⟨hkin, hterm⟩ := hl.others v hvu
    exact ⟨hkin.active.trans hactive, hterm.mpr hphase⟩
  intro v hv hphase
  have hvu : v ≠ u := by
    rintro rfl
    rw [(hl.self hv).1] at hphase
    cases hphase
  obtain ⟨hkin, hterm⟩ := hl.others v hvu
  obtain ⟨d, hd⟩ := h.reached v (hkin.active ▸ hv) (hterm.mp hphase)
  refine ⟨d, ?_⟩
  by_cases hdc : d = c
  · subst hdc
    rw [update_self]
    rw [hq] at hd
    exact (mem_cons.mp hd).resolve_left hvu
  · rwa [update_of_ne hdc]

theorem Sound.leave (h : Sound st q) (hq : q c = u :: rest)
    (hparent : (st.units u).parent = some i) (hl : Leaves u i c rest q st st') :
    Sound st' (update q c rest) := by
  obtain ⟨hactive, hphase⟩ := h.queued.queued c u (by rw [hq]; exact mem_cons_self)
  exact h.moves (hl.moves h hparent ⟨hactive, by rw [hphase]; decide⟩) (h.queued.leave hl hq)

/-- The reaper is at the realm when its last unit has left. -/
theorem Leaves.setMidway (hl : Leaves u i c rest q st st') (hnil : st'.unitList i = [])
    {code : Int} :
    Leaves u i c rest q st { st' with midway := some (.destroying (st'.rm.realms i).id code) } :=
  { hl with
    midway := by
      rintro m ⟨⟩
      exact ⟨congrArg (fun rm => (rm.realms i).id) hl.rm, hnil⟩ }

/-- The state in which the reaper has popped the unit, and `complete_termination` has taken it from
the list of its realm. -/
def taken (st : Life ρ) (u : Fin maxUnits) (i : Fin maxRealms)
    (next : Fin maxUnits → Option (Fin maxUnits)) (reapers : Nat → IntrusiveQueue (Fin maxUnits)) :
    Life ρ :=
  { st with
    next := next
    reapers := reapers
    handed := st.handed ++ [(st.units u).id]
    unitList := update st.unitList i ((st.unitList i).erase u) }

theorem reaperStep_eq {next : Fin maxUnits → Option (Fin maxUnits)}
    {r : IntrusiveQueue (Fin maxUnits)}
    (hpop : pop st.next (st.reapers c) = (some u, next, r))
    (hparent : (st.units u).parent = some i) :
    st.reaperStep c =
      let st1 := (st.taken u i next (update st.reapers c r)).retire u
      if st1.unitList i = [] then
        { st1 with midway := some (.destroying (st1.rm.realms i).id (st1.units u).exitCode) }
      else st1 := by
  rw [reaperStep, hpop]
  simp only [completeTermination, hparent]
  rfl

/-- Whatever is in the queues, a reaper retires at most one unit. -/
theorem reaperStep_shape (st : Life ρ) (c : Nat) :
    st.reaperStep c = st ∨ ∃ u next reapers handed unitList midway, st.reaperStep c = { ({ st with
        next := next
        reapers := reapers
        handed := handed
        unitList := unitList } : Life ρ).retire u with midway := midway } := by
  unfold Life.reaperStep
  split
  · exact .inl rfl
  next u next r _ =>
  refine .inr ⟨u, next, update st.reapers c r, st.handed ++ [(st.units u).id], ?_⟩
  cases hparent : (st.units u).parent with
  | none =>
    refine ⟨st.unitList, (({ st with
      next := next
      reapers := update st.reapers c r
      handed := st.handed ++ [(st.units u).id] } : Life ρ).retire u).midway, ?_⟩
    simp only [completeTermination, hparent]
  | some i =>
    simp only [completeTermination, hparent]
    split
    · exact ⟨_, _, rfl⟩
    · exact ⟨_, _, rfl⟩

/-- Waking changes nothing but the units. -/
theorem foldl_wake_eq (ws : List (Fin maxUnits)) (st : Life ρ) :
    ws.foldl wake st = { st with units := (ws.foldl wake st).units } := by
  induction ws generalizing st with
  | nil => rfl
  | cons w ws ih => exact ih (st.wake w)

theorem foldl_wake_rm (ws : List (Fin maxUnits)) (st : Life ρ) : (ws.foldl wake st).rm = st.rm := by
  rw [foldl_wake_eq]

theorem retire_leaves {next : Fin maxUnits → Option (Fin maxUnits)}
    {reapers : Nat → IntrusiveQueue (Fin maxUnits)} (hmid : st.midway = none)
    (hrep : ∀ d, IntrusiveQueue.Rep next (reapers d) (update q c rest d))
    (hgone : ∀ d, u ∉ update q c rest d) (hjoiners : ∀ w ∈ (st.units u).waitQueue,
      (st.units w).active ∧ (st.units w).phase = .blocked) :
    Leaves u i c rest q st ((st.taken u i next reapers).retire u) := by
  rw [retire]
  split
  -- joined already: the slot is cleared
  · refine ⟨rfl, rfl, ?_, ?_, ?_, ?_, rfl, rfl, rfl, rfl, rfl⟩
    · intro v hv
      have hsame : ((st.taken u i next reapers).finalizeSlot u).units v = st.units v :=
        update_of_ne hv _ _
      rw [hsame]
      exact ⟨.refl _, Iff.rfl⟩
    · intro hactive
      simp only [finalizeSlot, update_self] at hactive
      cases hactive
    · intro d
      refine (hrep d).frame ?_
      intro v hv
      refine update_of_ne ?_ _ _
      rintro rfl
      exact hgone d hv
    · intro m hm
      have hm' : st.midway = some m := hm
      rw [hmid] at hm'
      cases hm'
  -- a zombie, and whoever waits to join it is woken
  · have hrm := foldl_wake_rm (st.units u).waitQueue (st.taken u i next reapers)
    have halike : Alike (st.taken u i next reapers)
        ((st.units u).waitQueue.foldl wake (st.taken u i next reapers)) :=
      alike_foldl_wake _ fun w hw => .inl (hjoiners w hw).2
    show Leaves u i c rest q st
      (((st.units u).waitQueue.foldl wake (st.taken u i next reapers)).setUnit u _)
    generalize (st.units u).waitQueue.foldl wake (st.taken u i next reapers) = st1 at halike hrm
    refine ⟨hrm, halike.unitList, ?_, ?_, ?_, ?_, halike.starting, halike.nextUnitId, halike.born,
      halike.handed, halike.consumed⟩
    · intro v hv
      simp only [setUnit, update_of_ne hv]
      exact ⟨halike.unit v, halike.terminated v⟩
    · intro _
      refine ⟨?_, ?_⟩ <;> simp only [setUnit, update_self]
      exact (halike.unit u).id
    · intro d
      have hrep1 := hrep d
      have hnext : st1.next = next := halike.next
      have hreapers : st1.reapers = reapers := halike.reapers
      rw [← hnext, ← hreapers] at hrep1
      exact hrep1
    intro m hm
    have hm' : st1.midway = some m := hm
    rw [halike.midway] at hm'
    have hm'' : st.midway = some m := hm'
    rw [hmid] at hm''
    cases hm''

end Leaving

section

variable (h : Sound st q)

include h

/-- One turn of a reaper that has something to do. -/
theorem Sound.leaves (hmid : st.midway = none) {c : Nat}
    {rest : List (Fin maxUnits)} (hq : q c = u :: rest)
    (hjoiners : ∀ u, (pop st.next (st.reapers c)).1 = some u →
      ∀ w ∈ (st.units u).waitQueue, (st.units w).active ∧ (st.units w).phase = .blocked) :
    ∃ i, (st.units u).parent = some i ∧ Leaves u i c rest q st (st.reaperStep c) := by
  have hrep := h.queued.rep c
  rw [hq] at hrep
  obtain ⟨hpop, hrest, hframe⟩ := pop_rep hrep
  obtain ⟨hactive, hphase⟩ := h.queued.queued c u (by rw [hq]; exact mem_cons_self)
  obtain ⟨i, hparent, -, -, -⟩ := h.placed.own u hactive (by rw [hphase]; decide)
  have hwaiting := hjoiners u hpop
  rcases hpopped : pop st.next (st.reapers c) with ⟨popped, next, r⟩
  rw [hpopped] at hpop hrest hframe
  obtain rfl : popped = some u := hpop
  -- the other queues do not contain `u`, whose link is the only one that changed
  have hreps : ∀ d, IntrusiveQueue.Rep next (update st.reapers c r d)
      (update q c rest d) := by
    intro d
    by_cases hd : d = c
    · subst hd
      rw [update_self, update_self]
      exact hrest
    rw [update_of_ne hd, update_of_ne hd]
    refine (h.queued.rep d).frame ?_
    intro v hv
    refine hframe v ?_
    rw [mem_singleton]
    rintro rfl
    exact hd (h.queued.apart d c v hv (by rw [hq]; exact mem_cons_self))
  have hleaves := retire_leaves (i := i) hmid hreps
    (fun d hd => (h.queued.mem_rest hq hd).2 rfl) hwaiting
  refine ⟨i, hparent, ?_⟩
  rw [reaperStep_eq hpopped hparent]
  dsimp only
  split
  · next hnil => exact hleaves.setMidway hnil
  · exact hleaves

omit h in
theorem reaperStep_nil {c : Nat} (hrep : IntrusiveQueue.Rep st.next (st.reapers c) []) :
    st.reaperStep c = st := by
  rw [reaperStep, pop_nil hrep]

/-- One turn of a reaper. -/
theorem Sound.reaperStep (hmid : st.midway = none) (c : Nat)
    (hjoiners : ∀ u, (pop st.next (st.reapers c)).1 = some u →
      ∀ w ∈ (st.units u).waitQueue, (st.units w).active ∧ (st.units w).phase = .blocked) :
    ∃ q', Sound (st.reaperStep c) q' := by
  cases hq : q c with
  | nil =>
    rw [reaperStep_nil (hq ▸ h.queued.rep c)]
    exact ⟨q, h⟩
  | cons u rest =>
    obtain ⟨i, hparent, hleaves⟩ := h.leaves hmid hq hjoiners
    exact ⟨update q c rest, h.leave hq hparent hleaves⟩

/-! ## Slots that are cleared and taken -/

/-- A slot that nobody needs is overwritten by one that is not active. -/
theorem Sound.clearUnit
    (hdone : (st.units u).active → (st.units u).phase = .zombie) {unit : LifeUnit}
    (hunit : unit.active = false) {n : Nat} (hn : st.nextUnitId ≤ n) : Sound { st with
      units := update st.units u unit
      next := update st.next u none
      nextUnitId := n } q := by
  -- the slot is not live before or after, and the others are as they were
  have hother : ∀ v, Live (st.units v) → update st.units u unit v = st.units v := by
    intro v hv
    refine update_of_ne ?_ _ _
    rintro rfl
    exact hv.2 (hdone hv.1)
  have hback : ∀ v, (update st.units u unit v).active → update st.units u unit v = st.units v := by
    intro v hv
    refine update_of_ne ?_ _ _
    rintro rfl
    rw [update_self, hunit] at hv
    cases hv
  have hqueued : ∀ c v, v ∈ q c → Live (st.units v) := by
    intro c v hv
    obtain ⟨hactive, hphase⟩ := h.queued.queued c v hv
    exact ⟨hactive, by rw [hphase]; decide⟩
  refine h.moves { (Near.refl st).moves h.settled with
      known := ?_
      stays := ?_
      back := ?_
      nextUnitId := hn } ⟨?_, h.queued.apart, ?_, ?_⟩
  · intro v hv
    have hsame : update st.units u unit v = _ := hback v hv
    exact ⟨hsame ▸ hv, congrArg LifeUnit.id hsame⟩
  · intro v hv _
    dsimp only
    rw [hother v hv]
    exact ⟨hv, rfl, rfl⟩
  · intro v hv
    exact ⟨hback v hv.1 ▸ hv, nofun⟩
  · intro c
    refine (h.queued.rep c).frame ?_
    intro v hv
    refine update_of_ne ?_ _ _
    rintro rfl
    have hlive := hqueued c v hv
    exact hlive.2 (hdone hlive.1)
  · intro c v hv
    dsimp only
    rw [hother v (hqueued c v hv)]
    exact h.queued.queued c v hv
  · intro v hv hphase
    have hsame : update st.units u unit v = _ := hback v hv
    exact h.queued.reached v (hsame ▸ hv) (hsame ▸ hphase)

end

/-- A free slot is given to a new unit of a realm. -/
def addUnit (st : Life ρ) (u : Fin maxUnits) (unit : LifeUnit) (i : Fin maxRealms)
    (starting : List (Fin maxRealms × Nat)) : Life ρ :=
  { st with
    units := update st.units u unit
    next := update st.next u none
    nextUnitId := st.nextUnitId + 1
    unitList := update st.unitList i (u :: st.unitList i)
    born := st.born ++ [unit.id]
    starting := starting }

/-- The slot is free and the realm active, and the unit is made for them. -/
structure Newcomer (st : Life ρ) (u : Fin maxUnits) (unit : LifeUnit) (i : Fin maxRealms) : Prop where
  free : (st.units u).active = false
  realm : (st.rm.realms i).active
  active : unit.active
  id : unit.id = st.nextUnitId
  rid : unit.rid = (st.rm.realms i).id
  parent : unit.parent = some i
  ready : unit.phase = .ready

section Newcomer

variable {unit : LifeUnit} {v : Fin maxUnits} (hn : Newcomer st u unit i)

theorem addUnit_self : (st.addUnit u unit i starting).units u = unit := update_self _ _ _

theorem addUnit_cases (hv : ((st.addUnit u unit i starting).units v).active) :
    v = u ∨ (st.units v).active := by
  by_cases hvu : v = u
  · exact .inl hvu
  · simp only [addUnit, update_of_ne hvu] at hv
    exact .inr hv

theorem mem_addUnit {j : Fin maxRealms} :
    v ∈ (st.addUnit u unit i starting).unitList j ↔ v ∈ st.unitList j ∨ v = u ∧ j = i := by
  by_cases hj : j = i
  · simp [addUnit, hj, or_comm]
  · simp [addUnit, hj]

theorem unitList_addUnit {j : Fin maxRealms} (hj : j ≠ i) :
    (st.addUnit u unit i starting).unitList j = st.unitList j :=
  update_of_ne hj _ _

include hn

theorem Newcomer.other (hv : (st.units v).active) :
    (st.addUnit u unit i starting).units v = st.units v := by
  refine update_of_ne ?_ _ _
  rintro rfl
  rw [hn.free] at hv
  cases hv

theorem Placed.addUnit (h : Placed st) : Placed (st.addUnit u unit i starting) where
  ids := h.ids
  distinct := h.distinct
  own := by
    intro v hv hz
    rcases addUnit_cases hv with rfl | hv'
    · rw [addUnit_self]
      exact ⟨i, hn.parent, hn.realm, hn.rid.symm, mem_addUnit.mpr (.inr ⟨rfl, rfl⟩)⟩
    · rw [hn.other hv'] at hz ⊢
      obtain ⟨j, hp, hj, hjid, hin⟩ := h.own v hv' hz
      exact ⟨j, hp, hj, hjid, mem_addUnit.mpr (.inl hin)⟩
  listed := by
    intro j v hv
    rcases mem_addUnit.mp hv with hv | ⟨rfl, rfl⟩
    · obtain ⟨hv', hz, hp⟩ := h.listed j v hv
      rw [hn.other hv']
      exact ⟨hv', hz, hp⟩
    · rw [addUnit_self, hn.ready]
      exact ⟨hn.active, by decide, hn.parent⟩
  nodup := by
    intro j
    by_cases hj : j = i
    · subst hj
      simp only [Life.addUnit, update_self]
      refine nodup_cons.mpr ⟨fun hu => ?_, h.nodup j⟩
      have hactive := (h.listed j u hu).1
      rw [hn.free] at hactive
      cases hactive
    · rw [unitList_addUnit hj]
      exact h.nodup j

/-- The new unit is ready, so it is in no queue. -/
theorem Queued.addUnit (h : Queued st q) : Queued (st.addUnit u unit i starting) q where
  rep c := by
    refine (h.rep c).frame fun v hv => update_of_ne ?_ _ _
    rintro rfl
    have hv' := (h.queued c v hv).1
    rw [hn.free] at hv'
    cases hv'
  apart := h.apart
  queued c v hv := by
    have hqueued := h.queued c v hv
    rw [hn.other hqueued.1]
    exact hqueued
  reached v hv hphase := by
    rcases addUnit_cases hv with rfl | hv'
    · rw [addUnit_self, hn.ready] at hphase
      cases hphase
    · rw [hn.other hv'] at hphase
      exact h.reached v hv' hphase

omit hn in
/-- Only the list of the realm grows, and nobody takes that realm for one without units. -/
theorem Settled.addUnit (h : Settled st) (htorn : (st.rm.realms i).teardownComplete = false)
    (hmid : st.midway = none) (hsub : ∀ p ∈ starting, p ∈ st.starting)
    (hnodup : starting.Nodup) (hnot : (i, (st.rm.realms i).id) ∉ starting)
    (hclaimed : st.unitList i ≠ [] ∨ (i, (st.rm.realms i).id) ∈ st.starting) :
    Settled (st.addUnit u unit i starting) where
  torn := by
    intro j hj hdone
    have hji : j ≠ i := by
      rintro rfl
      rw [← Bool.not_eq_true] at htorn
      exact htorn hdone
    rw [unitList_addUnit hji]
    exact h.torn j hj hdone
  midway := by
    intro m hm
    cases hmid.symm.trans hm
  spawner := by
    intro j x hx hj hjid
    obtain ⟨hempty, hrest⟩ := h.spawner j x (hsub _ hx) hj hjid
    have hji : j ≠ i := by
      rintro rfl
      exact hnot (hjid ▸ hx)
    rw [unitList_addUnit hji]
    exact ⟨hempty, hrest⟩
  spawnerIds j x hx := h.spawnerIds j x (hsub _ hx)
  spawnerNodup := hnodup
  midwayLt := h.midwayLt
  waited := by
    intro j hj hwaited
    refine (h.waited j hj hwaited).imp_right ?_
    rintro ⟨hempty, hx, hat⟩
    have hji : j ≠ i := by
      rintro rfl
      exact hclaimed.elim (fun hne => hne hempty) hx
    rw [unitList_addUnit hji]
    exact ⟨hempty, fun hc => hx (hsub _ hc), hat⟩

/-- The id of the new unit is in no book yet. -/
theorem Ledger.addUnit (h : Ledger st) : Ledger (st.addUnit u unit i starting) := by
  have hunborn : unit.id ∉ st.born := fun hc => (hn.id ▸ h.bornLt _ hc).false
  refine ⟨?_, ?_, ?_, h.nodup, ?_, ?_⟩
  · intro v w hv hw hvw
    rcases addUnit_cases hv with rfl | hv' <;> rcases addUnit_cases hw with rfl | hw'
    · rfl
    · rw [addUnit_self, hn.other hw'] at hvw
      exact absurd (hvw ▸ h.born w hw') hunborn
    · rw [addUnit_self, hn.other hv'] at hvw
      exact absurd (hvw ▸ h.born v hv') hunborn
    · rw [hn.other hv', hn.other hw'] at hvw
      exact h.distinct v w hv' hw' hvw
  · intro v hv
    rcases addUnit_cases hv with rfl | hv'
    · rw [addUnit_self]
      exact mem_append_right _ mem_cons_self
    · rw [hn.other hv']
      exact mem_append_left _ (h.born v hv')
  · intro x hx
    rcases mem_append.mp hx with hx | hx
    · exact (h.bornLt x hx).trans (Nat.lt_succ_self _)
    · rw [mem_singleton.mp hx, hn.id]
      exact Nat.lt_succ_self _
  · intro x hx
    obtain ⟨hborn, hz⟩ := h.handed x hx
    refine ⟨mem_append_left _ hborn, fun v hv hvid => ?_⟩
    rcases addUnit_cases hv with rfl | hv'
    · rw [addUnit_self] at hvid
      exact absurd (hvid ▸ hborn) hunborn
    · rw [hn.other hv'] at hvid ⊢
      exact hz v hv' hvid
  intro x hx
  rcases mem_append.mp hx with hx | hx
  · rcases h.seen x hx with hdone | ⟨v, hv, hvid, hz⟩
    · exact .inl hdone
    · exact .inr ⟨v, by rw [hn.other hv]; exact ⟨hv, hvid, hz⟩⟩
  · refine .inr ⟨u, ?_⟩
    rw [addUnit_self, hn.ready, mem_singleton.mp hx]
    exact ⟨hn.active, rfl, by decide⟩

theorem Sound.addUnit (h : Sound st q) (hsettled : Settled (st.addUnit u unit i starting)) :
    Sound (st.addUnit u unit i starting) q :=
  ⟨h.placed.addUnit hn, h.queued.addUnit hn, hsettled, h.ledger.addUnit hn⟩

end Newcomer

/-! ## Changes of the realm table -/

/-- A slot without units belongs to nobody's unit. -/
theorem Placed.unitList_nil (h : Placed st)
    (hi : (st.rm.realms i).active = false) : st.unitList i = [] := by
  rw [eq_nil_iff_forall_not_mem]
  intro u hu
  obtain ⟨hactive, hz, hp⟩ := h.listed i u hu
  obtain ⟨j, hp', hj, -, -⟩ := h.own u hactive hz
  obtain rfl : j = i := Option.some.inj (hp'.symm.trans hp)
  rw [hi] at hj
  cases hj

/-- The list of units that `create` empties is empty. -/
theorem Placed.emptied_eq (h : Placed st) : st.emptied = st.unitList := by
  rw [emptied]
  split
  · next i hi =>
    have hfree : (st.rm.realms i).active = false := by simpa using findSlot_some hi
    rw [← h.unitList_nil hfree]
    exact update_eq_self i st.unitList
  · rfl

section

variable (h : Sound st q)

include h

/-- Realms without units may be freed or marked; the reaper may go on or be done with its realm,
and spawners may stop. -/
theorem Sound.realms {rm : RealmManager ρ} (hnext : rm.nextId = st.rm.nextId)
    (hsub : ∀ p ∈ starting, p ∈ st.starting) (hnodup : starting.Nodup) {midway : Option Midway}
    (hmid : ∀ m, midway = some m → ∃ m₀, st.midway = some m₀ ∧ m₀.rid = m.rid)
    (hslot : ∀ i, SameRealm (st.rm.realms i) (rm.realms i) ∨ st.unitList i = [] ∧
      ((rm.realms i).active → (st.rm.realms i).active ∧
        (rm.realms i).id = (st.rm.realms i).id ∧ (i, (st.rm.realms i).id) ∉ starting))
    {consumed : List Nat} (hconsumed : ∀ x ∈ st.consumed, x ∈ consumed)
    (hwaited : ∀ i, (rm.realms i).active → (rm.realms i).waitConsumed →
      (st.rm.realms i).waitConsumed ∨ (rm.realms i).id ∈ consumed) :
    Sound { st with rm := rm, midway := midway, starting := starting, consumed := consumed } q := by
  exact h.moves { (Near.refl st).moves h.settled with
      nextId := hnext.ge
      slot := fun i => (hslot i).imp_right fun ⟨hnil, hold⟩ => ⟨hnil, fun hi => .inl (hold hi)⟩
      waited := fun i _ => hwaited i
      starting := fun _ _ hx => .inl (hsub _ hx)
      startingNodup := hnodup
      midway := fun m hm => .inl (hmid m hm)
      consumed := hconsumed } { h.queued with }

/-- A free slot is given to a new realm, and perhaps to its spawner. -/
theorem Sound.newRealm {rm : RealmManager ρ} (ht : Taken st.rm rm i)
    (hstart : starting = st.starting ∨
      starting = (i, st.rm.nextId) :: st.starting ∧ Unmarked (rm.realms i)) :
    Sound { st with rm := rm, starting := starting } q := by
  have hlt : st.rm.nextId < rm.nextId := ht.nextId ▸ Nat.lt_succ_self _
  refine h.moves { (Near.refl st).moves h.settled with
      nextId := hlt.le
      slot := ?_
      waited := ?_
      starting := ?_
      startingNodup := ?_ } { h.queued with }
  · intro j
    by_cases hji : j = i
    · subst hji
      refine .inr ⟨h.placed.unitList_nil ht.free, fun _ => .inr ⟨ht.id, hlt, ?_⟩⟩
      intro k hk hid
      by_contra hki
      rw [ht.other k hki] at hk hid
      exact (hid ▸ h.placed.ids k hk).false
    · exact .inl (ht.other j hji ▸ .refl _)
  · intro j hj _ hmark
    have hji : j ≠ i := by
      rintro rfl
      rw [ht.free] at hj
      cases hj
    exact .inl (ht.other j hji ▸ hmark)
  · intro j x hx
    rcases hstart with rfl | ⟨rfl, hmarks⟩
    · exact .inl hx
    rcases mem_cons.mp hx with hx | hx
    · cases hx
      exact .inr ⟨rfl, hlt, hmarks⟩
    · exact .inl hx
  · rcases hstart with rfl | ⟨rfl, -⟩
    · exact h.settled.spawnerNodup
    · exact nodup_cons.mpr ⟨fun hx => lt_irrefl _ (h.settled.spawnerIds _ _ hx),
        h.settled.spawnerNodup⟩

end

/-! ## What a step does -/

theorem createUnit_keeps (st : Life ρ) (rid cpuId : Nat) (stackOk : Bool) :
    (st.createUnit rid cpuId stackOk).1.rm = st.rm ∧
      (st.createUnit rid cpuId stackOk).1.starting = st.starting := by
  unfold createUnit
  split
  · exact ⟨rfl, rfl⟩
  · split
    · exact ⟨rfl, rfl⟩
    · cases stackOk <;> exact ⟨rfl, rfl⟩

/-- What a step changes, and what it has found out before. -/
inductive Effect (st : Life ρ) : LifeAct → Life ρ → Prop
  | nothing (a : LifeAct) : Effect st a st
  | noRealm (parent : Nat) (cfg : RealmConfig) (allocs : CreateAllocs) {rm : RealmManager ρ}
      (hnext : rm.nextId = st.rm.nextId) (hrealms : rm.realms = st.rm.realms) :
      Effect st (.createRealm parent cfg allocs) { st with rm := rm, unitList := st.emptied }
  /-- The new realm has a spawner, unless its slot was taken in vain. -/
  | newRealm (parent : Nat) (cfg : RealmConfig) (allocs : CreateAllocs) {rm : RealmManager ρ}
      {i : Fin maxRealms} {starting : List (Fin maxRealms × Nat)} (htaken : Taken st.rm rm i)
      (hstart : starting = st.starting ∨
        starting = (i, st.rm.nextId) :: st.starting ∧ Unmarked (rm.realms i)) :
      Effect st (.createRealm parent cfg allocs)
        { st with rm := rm, unitList := st.emptied, starting := starting }
  | firstUnit {i : Fin maxRealms} {rid : Nat} (cpuId : Nat) (stackOk : Bool)
      (hmid : st.midway = none) (hx : (i, rid) ∈ st.starting) :
      Effect st (.firstUnit i rid cpuId stackOk)
        { (st.createUnit (st.rm.realms i).id cpuId stackOk).1 with
          starting := if (st.createUnit (st.rm.realms i).id cpuId stackOk).2.isSome then
            st.starting.erase (i, rid) else st.starting }
  | abort {i : Fin maxRealms} {rid : Nat} (hx : (i, rid) ∈ st.starting) :
      Effect st (.abort i rid)
        { st with
          rm := st.rm.abort (st.rm.realms i).id
          starting := st.starting.erase (i, rid) }
  | unitSpawn {u : Fin maxUnits} (cpuId : Nat) (stackOk : Bool) (hmid : st.midway = none)
      (hrun : st.mayRun u = true) :
      Effect st (.unitSpawn u cpuId stackOk) (st.createUnit (st.units u).rid cpuId stackOk).1
  | exitCurrent {u : Fin maxUnits} (cpu : Nat) (code : Int) (hrun : st.mayRun u = true) :
      Effect st (.exitCurrent u cpu code) (st.exitCurrent u cpu code)
  | exitRealm {u : Fin maxUnits} {i : Fin maxRealms} (code : Int) (hrun : st.mayRun u = true)
      (hparent : (st.units u).parent = some i) :
      Effect st (.exitRealm u code) (st.endRealm i code code)
  | kill {rid : Nat} {i : Fin maxRealms} (sig : Nat) (hfind : st.rm.findId rid = some i) :
      Effect st (.kill rid sig) (st.endRealm i ((sig % 128 : Nat) : Int) (-(sig : Int)))
  | reaper (cpu : Nat) (hmid : st.midway = none) : Effect st (.reaper cpu) (st.reaperStep cpu)
  | destroyRealm {rid : Nat} {code : Int} (hmid : st.midway = some (.destroying rid code))
      (hinit : rid ≠ initRealmId) :
      Effect st .destroyRealm
        { st with rm := st.rm.destroy rid code, midway := some (.marking rid) }
  | markRealm {rid : Nat} (hmid : st.midway = some (.marking rid)) :
      Effect st .markRealm { st with rm := st.rm.markTeardownComplete rid, midway := none }
  | collect {a : LifeAct} (rid : Nat)
      (ha : (∃ u nohang, a = .wait u rid nohang) ∨ ∃ u, a = .waitAgain u rid) :
      Effect st a (st.collect rid).1
  | wait {u : Fin maxUnits} {i : Fin maxRealms} (rid : Nat) (nohang : Bool)
      (hrun : st.mayRun u = true) (hexited : (st.rm.realms i).exited = false) :
      Effect st (.wait u rid nohang)
        { st.setUnit u fun unit => { unit with phase := .blocked } with
          rm := st.rm.setRealm i { st.rm.realms i with waiterPresent := true }
          waitQueue := update st.waitQueue i (st.waitQueue i ++ [u]) }
  | joined (a : LifeAct) {target : Fin maxUnits} (hz : (st.units target).phase = .zombie) :
      Effect st a (st.finalizeSlot target)
  /-- A unit that is not done yet notes who joins it, and that one may go to sleep. -/
  | join {u target : Fin maxUnits} (uid : Nat) {f : LifeUnit → LifeUnit} {st' : Life ρ}
      (hrun : st.mayRun u = true) (hf : ∀ unit, f unit = { unit with
        joinerId := (f unit).joinerId
        joinedNoWait := (f unit).joinedNoWait
        waitQueue := (f unit).waitQueue })
      (hst : st' = st.setUnit target f ∨
        st' = (st.setUnit target f).setUnit u fun unit => { unit with phase := .blocked }) :
      Effect st (.join u uid) st'

/-- `create`: no realm, one that is given up at once, or one with a spawner. -/
theorem createRealm_effect (st : Life ρ) (parent : Nat) (cfg : RealmConfig) (allocs : CreateAllocs) :
    Effect st (.createRealm parent cfg allocs) (lifeStep st (.createRealm parent cfg allocs)).1 := by
  rw [lifeStep]
  rcases hcreate : st.rm.create cfg allocs with ⟨rm, made⟩
  rcases create_cases hcreate with ⟨rfl, hnext, hrealms⟩ | ⟨i, htaken, rfl | ⟨rfl, hmarks⟩⟩
  · exact .noRealm parent cfg allocs hnext hrealms
  · exact .newRealm parent cfg allocs htaken (.inl rfl)
  have hparent : Taken st.rm (rm.setRealm i { rm.realms i with parentId := parent }) i := by
    refine ⟨htaken.free, htaken.nextId, ?_, ?_, ?_, ?_, ?_, ?_,
      fun j hj => (setRealm_of_ne hj).trans (htaken.other j hj)⟩ <;> rw [setRealm_self]
    exacts [htaken.id, htaken.active, htaken.cred, htaken.root, htaken.pgid, htaken.sid]
  refine .newRealm parent cfg allocs hparent (.inr ⟨by dsimp only; rw [htaken.id], ?_⟩)
  rw [setRealm_self]
  exact hmarks

/-- The first unit of a realm ends the work of its spawner. -/
theorem firstUnit_effect (st : Life ρ) (i : Fin maxRealms) (rid cpuId : Nat) (stackOk : Bool) :
    Effect st (.firstUnit i rid cpuId stackOk) (lifeStep st (.firstUnit i rid cpuId stackOk)).1 := by
  rw [lifeStep]
  split
  · exact .nothing _
  next hgo =>
  obtain ⟨hmid, hx⟩ : st.midway = none ∧ (i, rid) ∈ st.starting := by simpa using hgo
  have heffect := Effect.firstUnit cpuId stackOk hmid hx
  have hstart := (createUnit_keeps st (st.rm.realms i).id cpuId stackOk).2
  split <;> next heq =>
    rw [heq] at heffect hstart
    rw [← hstart] at heffect
    exact heffect

/-- A wait finds that the realm has exited, or goes to sleep. -/
theorem wait_effect (st : Life ρ) (u : Fin maxUnits) (rid : Nat) (nohang : Bool)
    (hrun : st.mayRun u = true) : Effect st (.wait u rid nohang) (st.wait u rid nohang).1 := by
  rw [wait]
  split
  · exact .nothing _
  next i _ =>
  split_ifs with hexited
  · exact .collect rid (.inl ⟨u, nohang, rfl⟩)
  · exact .nothing _
  · exact .wait rid nohang hrun (by simpa using hexited)

/-- A join ends at once, or leaves a mark in the unit. -/
theorem join_effect (st : Life ρ) (u : Fin maxUnits) (uid : Nat) (hrun : st.mayRun u = true) :
    Effect st (.join u uid) (st.join u uid).1 := by
  rw [join]
  split
  · exact .nothing _
  next target _ =>
  split
  · exact .nothing _
  split
  · next hz => exact .joined _ hz
  · dsimp only
    exact .join uid hrun (fun _ => rfl) (.inl rfl)
  · exact .join uid hrun (fun _ => rfl) (.inr rfl)
  · exact .join uid hrun (fun _ => rfl) (.inr rfl)

theorem lifeStep_effect (st : Life ρ) (a : LifeAct) : Effect st a (lifeStep st a).1 := by
  cases a with
  | createRealm parent cfg allocs => exact createRealm_effect st parent cfg allocs
  | firstUnit i rid cpuId stackOk => exact firstUnit_effect st i rid cpuId stackOk
  | abort i rid =>
    rw [lifeStep]
    split
    · exact .nothing _
    · next hgo => exact .abort (by simpa using hgo)
  | unitSpawn u cpuId stackOk =>
    rw [lifeStep]
    split
    · exact .nothing _
    next hgo =>
    obtain ⟨hmid, hrun⟩ : st.midway = none ∧ st.mayRun u := by simpa using hgo
    have heffect := Effect.unitSpawn cpuId stackOk hmid hrun
    split <;> next heq =>
      rw [heq] at heffect
      exact heffect
  | exitCurrent u cpu code =>
    rw [lifeStep]
    split
    · exact .nothing _
    · next hgo => exact .exitCurrent cpu code (by simpa using hgo)
  | exitRealm u code =>
    rw [lifeStep]
    split
    · exact .nothing _
    next hgo =>
    split
    · exact .nothing _
    · next i hparent => exact .exitRealm code (by simpa using hgo) hparent
  | kill rid sig =>
    rw [lifeStep]
    split
    · exact .nothing _
    · next i hfind => exact .kill sig hfind
  | reaper cpu =>
    rw [lifeStep]
    split
    · exact .nothing _
    · next hgo => exact .reaper cpu (by simpa using hgo)
  | destroyRealm =>
    rw [lifeStep, destroyRealm]
    split
    · next rid code hmid =>
      split
      · exact .nothing _
      · next hinit => exact .destroyRealm hmid hinit
    · exact .nothing _
  | markRealm =>
    rw [lifeStep, markRealm]
    split
    · next rid hmid => exact .markRealm hmid
    · exact .nothing _
  | wait u rid nohang =>
    rw [lifeStep]
    split
    · exact .nothing _
    · next hgo => exact wait_effect st u rid nohang (by simpa using hgo)
  | waitAgain u rid =>
    rw [lifeStep]
    split
    · exact .nothing _
    rw [waitAgain]
    split
    · exact .nothing _
    · split
      · exact .collect rid (.inr ⟨u, rfl⟩)
      · exact .nothing _
  | join u uid =>
    rw [lifeStep]
    split
    · exact .nothing _
    next hgo =>
    obtain ⟨-, hrun⟩ : st.midway = none ∧ st.mayRun u := by simpa using hgo
    exact join_effect st u uid hrun
  | joinAgain u uid =>
    rw [lifeStep]
    split
    · exact .nothing _
    rw [joinAgain]
    split
    · exact .nothing _
    next target _ =>
    split
    · next hz => exact .joined _ hz
    · exact .nothing _

/-! ## The steps -/

theorem find_free_unit
    (h : ((List.finRange maxUnits).find? fun u => !(st.units u).active) = some u) :
    (st.units u).active = false := by
  simpa using find?_some h

section

variable (h : Sound st q)

include h

/-- `UnitManager::create`, for a realm that has no spawner left when it has a unit. -/
theorem Sound.createUnit (hmid : st.midway = none) {rid : Nat} (cpuId : Nat)
    (stackOk : Bool) (hsub : ∀ p ∈ starting, p ∈ st.starting) (hnodup : starting.Nodup)
    (hrealm : ∀ i, (st.rm.realms i).active → (st.rm.realms i).id = rid →
      (st.rm.realms i).teardownComplete = false ∧ (i, rid) ∉ starting ∧
        (st.unitList i ≠ [] ∨ (i, rid) ∈ st.starting)) :
    Sound { (st.createUnit rid cpuId stackOk).1 with
      starting := if
      (st.createUnit rid cpuId stackOk).2.isSome then starting else st.starting } q := by
  unfold Life.createUnit
  split
  · exact h
  next i hfind =>
  obtain ⟨hi, hid⟩ := findId_some hfind
  obtain ⟨htorn, hnot, hclaimed⟩ := hrealm i hi hid
  split
  · exact h
  next u hu =>
  have hfree := find_free_unit hu
  cases stackOk with
  | false =>
    refine h.clearUnit (fun hactive => ?_) rfl (Nat.le_succ _)
    rw [hfree] at hactive
    cases hactive
  | true =>
    exact h.addUnit ⟨hfree, hi, rfl, rfl, hid.symm, rfl, rfl⟩
      (h.settled.addUnit htorn hmid hsub hnodup (hid ▸ hnot) (hid ▸ hclaimed))

/-- Who may run has a realm, which lists it. -/
theorem Sound.own_of_mayRun (hrun : st.mayRun u) :
    (st.units u).active ∧ ∃ i, (st.units u).parent = some i ∧
      (st.rm.realms i).active ∧ (st.rm.realms i).id = (st.units u).rid ∧ u ∈ st.unitList i := by
  rw [mayRun, Bool.and_eq_true, Bool.or_eq_true, beq_iff_eq, beq_iff_eq] at hrun
  refine ⟨hrun.1, h.placed.own u hrun.1 ?_⟩
  rcases hrun.2 with hphase | hphase <;> rw [hphase] <;> decide

/-- A wait that reports an exit. -/
theorem Sound.collect (rid : Nat) : Sound (st.collect rid).1 q := by
  have h1 := h.alike (alike_consume st rid 0)
  rw [Life.collect]
  generalize (st.consume rid 0).1 = st1 at h1
  refine h1.realms (keepsRoots_reap st1.rm rid).nextId (fun p hp => hp) h1.settled.spawnerNodup
    (fun m hm => ⟨m, hm, rfl⟩) ?_ (fun x hx => mem_cons_of_mem _ hx) ?_
  · intro j
    rcases reap_slot st1.rm rid j with hsame | ⟨hactive, -, hsame | ⟨-, htorn, hfreed⟩⟩
    · rw [hsame]
      exact .inl (.refl _)
    · rw [hsame]
      exact .inl ⟨rfl, rfl, rfl⟩
    refine .inr ⟨h1.settled.torn j hactive htorn, ?_⟩
    intro hc
    rw [hfreed] at hc
    cases hc
  intro j hj hmark
  rcases reap_slot st1.rm rid j with hsame | ⟨-, hid, hsame | ⟨-, -, hfreed⟩⟩
  · rw [hsame] at hmark
    exact .inl hmark
  · rw [hsame]
    exact .inr (mem_cons.mpr (.inl hid))
  · rw [hfreed] at hj
    cases hj

omit h in
/-- A unit goes to sleep until a realm exits. -/
theorem alike_wait (hready : (st.units u).phase = .ready) (i : Fin maxRealms) :
    Alike st { st.setUnit u fun unit => { unit with phase := .blocked } with
      rm := st.rm.setRealm i { st.rm.realms i with waiterPresent := true }
      waitQueue := update st.waitQueue i (st.waitQueue i ++ [u]) } := by
  have hblock : Alike st (st.setUnit u fun unit => { unit with phase := .blocked }) :=
    alike_setUnit ⟨rfl, rfl, rfl, rfl, by simp [hready]⟩ (by simp [hready])
  refine hblock.trans ?_
  have hmark : SameRealm (st.rm.realms i) { st.rm.realms i with waiterPresent := true } :=
    ⟨rfl, rfl, rfl⟩
  exact (alike_setRealm (st.setUnit u _) hmark rfl).trans (alike_waitQueue _ _)

omit h in
/-- A unit notes who joins it. -/
theorem alike_join (hready : (st.units u).phase = .ready) {target : Fin maxUnits}
    {f : LifeUnit → LifeUnit} (hf : ∀ unit, f unit = { unit with
      joinerId := (f unit).joinerId
      joinedNoWait := (f unit).joinedNoWait
      waitQueue := (f unit).waitQueue })
    (hst : st' = st.setUnit target f ∨
      st' = (st.setUnit target f).setUnit u fun unit => { unit with phase := .blocked }) :
    Alike st st' := by
  have hmark : Alike st (st.setUnit target f) := by
    refine alike_setUnit ?_ ?_ <;> rw [hf]
    exact ⟨rfl, rfl, rfl, rfl, Iff.rfl⟩
  rcases hst with rfl | rfl
  · exact hmark
  -- the caller is ready, also if it joins itself
  have hu : ((st.setUnit target f).units u).phase = .ready := by
    by_cases hut : u = target
    · rw [hut] at hready ⊢
      simp only [setUnit, update_self]
      rw [hf]
      exact hready
    · simpa [setUnit, update_of_ne hut] using hready
  exact hmark.trans (alike_setUnit ⟨rfl, rfl, rfl, rfl, by simp [hu]⟩ (by simp [hu]))

theorem Sound.finalizeSlot (hz : (st.units u).phase = .zombie) : Sound (st.finalizeSlot u) q :=
  h.clearUnit (fun _ => hz) rfl le_rfl

theorem Sound.destroyRealm {rid : Nat} {code : Int}
    (hmid : st.midway = some (.destroying rid code)) (hdone : st.ChildrenDone st.midway) :
    Sound { st with rm := st.rm.destroy rid code, midway := some (.marking rid) } q := by
  rw [hmid] at hdone
  refine h.realms (keepsRoots_destroy st.rm rid code).nextId (fun p hp => hp)
    h.settled.spawnerNodup ?_ ?_ (fun _ hx => hx) ?_
  · intro m hm
    exact ⟨_, hmid, by cases hm; rfl⟩
  · intro j
    rcases destroy_slot st.rm rid code j with hsame | hchild | ⟨hactive, hid, hself⟩
    · rw [hsame]
      exact .inl (.refl _)
    · rcases hchild with ⟨hactive, hparent, ⟨-, hsame⟩ | ⟨hexited, hfreed⟩⟩
      · rw [hsame]
        exact .inl ⟨rfl, rfl, rfl⟩
      refine .inr ⟨hdone j hactive hparent hexited, ?_⟩
      intro hc
      rw [hfreed] at hc
      cases hc
    rcases hself with ⟨parent, hsame⟩ | ⟨-, hfreed⟩
    · rw [hsame]
      exact .inl ⟨rfl, rfl, rfl⟩
    refine .inr ⟨h.settled.midway _ hmid j hactive hid, ?_⟩
    intro hc
    rw [hfreed] at hc
    cases hc
  intro j hj hmark
  left
  rcases destroy_slot st.rm rid code j with hsame | hchild | ⟨-, -, ⟨parent, hsame⟩ | ⟨hold, -⟩⟩
  · rwa [hsame] at hmark
  · rcases hchild with ⟨-, -, ⟨-, hsame⟩ | ⟨-, hfreed⟩⟩
    · rwa [hsame] at hmark
    · rw [hfreed] at hj
      cases hj
  · rwa [hsame] at hmark
  · exact hold

theorem Sound.markRealm {rid : Nat} (hmid : st.midway = some (.marking rid)) :
    Sound { st with rm := st.rm.markTeardownComplete rid, midway := none } q := by
  refine h.realms (keepsRoots_markTeardownComplete st.rm rid).nextId (fun p hp => hp)
    h.settled.spawnerNodup (by intro m hm; cases hm) ?_ (fun _ hx => hx) ?_
  · intro j
    rcases markTeardownComplete_slot st.rm rid j with hsame | ⟨hactive, hid, hself⟩
    · rw [hsame]
      exact .inl (.refl _)
    refine .inr ⟨h.settled.midway _ hmid j hactive hid, ?_⟩
    rcases hself with hsame | ⟨-, hfreed⟩
    · rw [hsame]
      refine fun _ => ⟨hactive, rfl, ?_⟩
      -- the spawner of this realm is through, or no reaper would be at it
      intro hx
      exact (h.settled.spawner j _ hx hactive rfl).2.2 _ hmid hid.symm
    · intro hc
      rw [hfreed] at hc
      cases hc
  intro j hj hmark
  left
  rcases markTeardownComplete_slot st.rm rid j with hsame | ⟨-, -, hsame | ⟨hold, -⟩⟩
  · rwa [hsame] at hmark
  · rwa [hsame] at hmark
  · exact hold

theorem Sound.abort {rid : Nat} (hx : (i, rid) ∈ st.starting)
    (hi : (st.rm.realms i).active) (hid : (st.rm.realms i).id = rid) : Sound { st with
      rm := st.rm.abort (st.rm.realms i).id
      starting := st.starting.erase (i, rid) } q := by
  refine h.realms (keepsRoots_abort st.rm _).nextId (fun p hp => mem_of_mem_erase hp)
    (h.settled.spawnerNodup.erase _) (fun m hm => ⟨m, hm, rfl⟩) ?_ (fun _ hy => hy) ?_
  · intro j
    rcases abort_slot st.rm (st.rm.realms i).id j with hsame | ⟨hactive, hjid, hfreed⟩
    · rw [hsame]
      exact .inl (.refl _)
    obtain rfl : j = i := h.placed.distinct j i hactive hi hjid
    refine .inr ⟨(h.settled.spawner j rid hx hi hid).1, ?_⟩
    intro hc
    rw [hfreed] at hc
    cases hc
  · intro j hj hmark
    rw [abort_active hj] at hmark
    exact .inl hmark

/-- What one step does. -/
theorem Sound.step {a : LifeAct} (htame : Tame st a) : ∃ q', Sound (lifeStep st a).1 q' := by
  have heffect := lifeStep_effect st a
  generalize (lifeStep st a).1 = st' at heffect ⊢
  cases heffect with
  | nothing => exact ⟨q, h⟩
  | noRealm parent cfg allocs hnext hrealms =>
    rw [h.placed.emptied_eq]
    exact ⟨q, h.alike (alike_table hnext hrealms)⟩
  | newRealm parent cfg allocs htaken hstart =>
    rw [h.placed.emptied_eq]
    exact ⟨q, h.newRealm htaken hstart⟩
  | @firstUnit i rid cpuId stackOk hmid hx =>
    obtain ⟨hi, hid⟩ := htame hx
    have hnodup := h.settled.spawnerNodup
    refine ⟨q, h.createUnit hmid cpuId stackOk (fun p hp => mem_of_mem_erase hp)
      (hnodup.erase _) ?_⟩
    intro j hj hjid
    obtain rfl : j = i := h.placed.distinct j i hj hi hjid
    rw [hid]
    exact ⟨(h.settled.spawner j rid hx hi hid).2.1, List.Nodup.not_mem_erase hnodup, .inr hx⟩
  | abort hx =>
    obtain ⟨hi, hid⟩ := htame hx
    exact ⟨q, h.abort hx hi hid⟩
  | @unitSpawn u cpuId stackOk hmid hrun =>
    obtain ⟨-, i, -, hi, hid, hmem⟩ := h.own_of_mayRun hrun
    have hsound := h.createUnit hmid cpuId stackOk (fun p hp => hp) h.settled.spawnerNodup (by
      intro j hj hjid
      obtain rfl : j = i := h.placed.distinct j i hj hi (hjid.trans hid.symm)
      have hne : st.unitList j ≠ [] := ne_nil_of_mem hmem
      refine ⟨?_, fun hx => hne (h.settled.spawner j _ hx hj hjid).1, .inl hne⟩
      rw [← Bool.not_eq_true]
      exact fun htorn => hne (h.settled.torn j hj htorn))
    rw [ite_self, ← (createUnit_keeps st (st.units u).rid cpuId stackOk).2] at hsound
    exact ⟨q, hsound⟩
  | exitCurrent cpu code hrun =>
    obtain ⟨hready, hwait⟩ := htame hrun
    exact h.exitCurrent (h.own_of_mayRun hrun).1 hready hwait cpu code
  | exitRealm code hrun hparent =>
    obtain ⟨hrunning, hwait⟩ := htame hrun _ hparent
    exact h.endRealm hrunning hwait code code
  | kill sig hfind =>
    obtain ⟨hrunning, hwait⟩ := htame _ hfind
    exact h.endRealm hrunning hwait _ _
  | reaper cpu hmid => exact h.reaperStep hmid cpu htame
  | destroyRealm hmid => exact ⟨q, h.destroyRealm hmid htame⟩
  | markRealm hmid => exact ⟨q, h.markRealm hmid⟩
  | collect rid => exact ⟨q, h.collect rid⟩
  | wait rid nohang hrun => exact ⟨q, h.alike (alike_wait (htame hrun) _)⟩
  | joined _ hz => exact ⟨q, h.finalizeSlot hz⟩
  | join uid hrun hf hst => exact ⟨q, h.alike (alike_join (htame hrun) hf hst)⟩

end

/-- What a run does. -/
theorem sound_final {as : List LifeAct} (htame : Along lifeStep Tame (boot ρ) as) :
    ∃ q, Sound (final lifeStep (boot ρ) as) q := by
  have hstep : ∀ (st : Life ρ) a, (∃ q, Sound st q) → Tame st a →
      ∃ q, Sound (lifeStep st a).1 q := fun _ _ ⟨_, h⟩ htame => h.step htame
  exact final_invariant_along hstep ⟨_, sound_boot⟩ htame

end Life

end Vespera.Realms
