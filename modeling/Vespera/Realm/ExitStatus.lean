import Vespera.Realm.LifecycleInv

/-! # The exit status reaches the waiter

The status of a realm goes through `ExitCodeTable`: the exit that is taken for the last one stores
it, and the first wait that reports the exit takes it out. `exit_current` takes a unit for the last
one when `unit_count` is 1, and the reaper subtracts from that count later; the table has 64
records, and without a free one the status is dropped.

Main results: `exit_status_reaches_waiter` (in runs where a unit that is the last to exit is also
the last in the list of its realm, where a record is free when one is needed, and where realms are
killed while they run, the waiters of a realm whose units have terminated have been woken, and the
first wait reports its last status), `exit_status_lost` (two units exit before a reaper runs).
-/

namespace Vespera.Realms

open Function List Lib RealmManager

namespace Life

variable {ρ : Type} {st st' : Life ρ} {q : Nat → List (Fin maxUnits)} {i : Fin maxRealms}
  {u : Fin maxUnits}

/-! ## Conditions on steps -/

variable (st)

/-- `ExitCodeTable` has a free record. -/
def RecordFree : Prop := ∃ k, st.records k = none

/-- The unit is alone in the list of its realm and its status can be stored, or another unit is
still running. -/
def ExitsInOrder (u : Fin maxUnits) (i : Fin maxRealms) : Prop :=
  st.unitList i = [u] ∧ st.RecordFree ∨ ∃ v ∈ st.unitList i, v ≠ u ∧ (st.units v).phase ≠ .terminated

/-- The steps in question, in addition to `Tame`. -/
def StatusKept : LifeAct → Prop
  | .exitCurrent u _ _ => st.mayRun u = true → ∀ i, (st.units u).parent = some i → st.ExitsInOrder u i
  | .exitRealm u _ => st.mayRun u = true → ∀ i, (st.units u).parent = some i → st.RecordFree
  | .kill rid _ => ∀ i, st.rm.findId rid = some i → st.unitList i ≠ [] ∧ st.RecordFree
  | .unitSpawn u _ _ => st.mayRun u = true → (st.units u).phase = .ready
  | _ => True

/-- The steps that hand the status on. -/
def Reporting (a : LifeAct) : Prop := Tame st a ∧ StatusKept st a

/-! ## The invariant -/

/-- The units in the list of the realm have all terminated. -/
def AllTerminated (i : Fin maxRealms) : Prop :=
  ∀ u ∈ st.unitList i, (st.units u).phase = .terminated

variable {st}

/-- What the records and the realms say about exits. -/
structure Exits (st : Life ρ) : Prop where
  recorded : ∀ k x c, st.records k = some (x, c) → st.status x = some c ∧
    ∀ i, (st.rm.realms i).active = true → (st.rm.realms i).id = x → (st.rm.realms i).exited = true
  unique : ∀ k l x c d, st.records k = some (x, c) → st.records l = some (x, d) → k = l
  done : ∀ i c, (st.rm.realms i).active = true → st.status (st.rm.realms i).id = some c →
    st.AllTerminated i → (st.rm.realms i).exited = true ∧ st.waitQueue i = [] ∧
      ((st.rm.realms i).id ∉ st.consumed → ∃ k, st.records k = some ((st.rm.realms i).id, c))
  ended : ∀ i, (st.rm.realms i).active = true → (st.rm.realms i).exited = true → st.AllTerminated i
  fresh : ∀ x c, st.status x = some c → x < st.rm.nextId
  start : ∀ i x, (i, x) ∈ st.starting → (st.rm.realms i).active = true →
    (st.rm.realms i).id = x → (st.rm.realms i).exited = false

theorem exits_boot : Exits (boot ρ) := by
  -- nothing is recorded, active or starting
  constructor <;> nofun

/-- A realm with a unit that has not terminated has not exited. -/
theorem Exits.running (h : Exits st) (hi : (st.rm.realms i).active)
    (hu : u ∈ st.unitList i) (hphase : (st.units u).phase ≠ .terminated) :
    (st.rm.realms i).exited = false := by
  rw [← Bool.not_eq_true]
  exact fun hexited => hphase (h.ended i hi hexited u hu)

/-! ## Steps that are no exits -/

/-- No exit and no kill: the records of others stay, realms only exit when their units have
terminated, and nobody is taken out of a wait queue. -/
structure Steady (st st' : Life ρ) : Prop where
  status : st'.status = st.status
  sub : ∀ k r, st'.records k = some r → st.records k = some r
  kept : ∀ k r, st.records k = some r → r.1 ∈ st'.consumed ∨ st'.records k = some r
  consumed : ∀ x ∈ st.consumed, x ∈ st'.consumed
  nextId : st.rm.nextId ≤ st'.rm.nextId
  slot : ∀ i, (st'.rm.realms i).active = true →
    ((st.rm.realms i).active = true ∧ (st'.rm.realms i).id = (st.rm.realms i).id ∧
      ((st.rm.realms i).exited = true → (st'.rm.realms i).exited = true)) ∨
    st.rm.nextId ≤ (st'.rm.realms i).id
  queue : ∀ i, st'.waitQueue i = st.waitQueue i ∨
    (st.rm.realms i).exited = false ∧ ∃ u, st'.waitQueue i = st.waitQueue i ++ [u]
  live : ∀ i, (st.rm.realms i).active = true → st'.AllTerminated i → st.AllTerminated i
  ended : ∀ i, (st'.rm.realms i).active = true → (st'.rm.realms i).exited = true →
    st'.AllTerminated i
  start : ∀ i x, (i, x) ∈ st'.starting → (st'.rm.realms i).active = true →
    (st'.rm.realms i).id = x → (st'.rm.realms i).exited = false

theorem Exits.steady (h : Exits st) (hs : Steady st st') : Exits st' where
  recorded := by
    intro k x c hk
    obtain ⟨hstatus, hexited⟩ := h.recorded k x c (hs.sub k _ hk)
    rw [hs.status]
    refine ⟨hstatus, ?_⟩
    intro i hi hid
    rcases hs.slot i hi with ⟨hold, hsame, hkeep⟩ | hnew
    · exact hkeep (hexited i hold (hsame.symm.trans hid))
    · have hlt := h.fresh x c hstatus
      omega
  unique := by
    intro k l x c d hk hl
    exact h.unique k l x c d (hs.sub k _ hk) (hs.sub l _ hl)
  done := by
    intro i c hi hstatus hall
    rw [hs.status] at hstatus
    rcases hs.slot i hi with ⟨hold, hsame, hkeep⟩ | hnew
    · rw [hsame] at hstatus ⊢
      obtain ⟨hexited, hqueue, hrecord⟩ := h.done i c hold hstatus (hs.live i hold hall)
      refine ⟨hkeep hexited, ?_, ?_⟩
      · rcases hs.queue i with hq | ⟨hrunning, -⟩
        · rw [hq, hqueue]
        · rw [hexited] at hrunning
          cases hrunning
      · intro hx
        obtain ⟨k, hk⟩ := hrecord fun hc => hx (hs.consumed _ hc)
        exact ⟨k, (hs.kept k _ hk).resolve_left hx⟩
    · have hlt := h.fresh _ c hstatus
      omega
  ended := hs.ended
  fresh := by
    intro x c hstatus
    rw [hs.status] at hstatus
    exact (h.fresh x c hstatus).trans_le hs.nextId
  start := hs.start

theorem Steady.refl (h : Exits st) : Steady st st where
  status := rfl
  sub _ _ hk := hk
  kept _ _ hk := .inr hk
  consumed _ hx := hx
  nextId := le_rfl
  slot _ hi := .inl ⟨hi, rfl, id⟩
  queue _ := .inl rfl
  live _ _ hall := hall
  ended := h.ended
  start := h.start

section

variable (h : Exits st) (hrm : st'.rm = st.rm) (hstatus : st'.status = st.status)
  (hrecords : st'.records = st.records) (hconsumed : st'.consumed = st.consumed)
  (hqueue : st'.waitQueue = st.waitQueue)

include h hrm hstatus hrecords hconsumed hqueue

/-- Only units and their lists change, and spawners stop. -/
theorem steady_units (hstart : ∀ p ∈ st'.starting, p ∈ st.starting)
    (hlive : ∀ i, (st.rm.realms i).active → st'.AllTerminated i → st.AllTerminated i)
    (hended : ∀ i, (st.rm.realms i).active → (st.rm.realms i).exited →
      st'.AllTerminated i) : Steady st st' where
  status := hstatus
  sub := by
    rw [hrecords]
    exact fun _ _ hk => hk
  kept := by
    rw [hrecords]
    exact fun _ _ hk => .inr hk
  consumed := by
    rw [hconsumed]
    exact fun _ hx => hx
  nextId := by rw [hrm]
  slot := by
    rw [hrm]
    exact fun i hi => .inl ⟨hi, rfl, id⟩
  queue := by
    rw [hqueue]
    exact fun i => .inl rfl
  live := hlive
  ended := by
    rw [hrm]
    exact hended
  start := by
    rw [hrm]
    exact fun i x hx => h.start i x (hstart _ hx)

/-- The phases of the units that are listed are as before, as far as it matters. -/
theorem steady_phases (hstart : st'.starting = st.starting) (hlist : st'.unitList = st.unitList)
    (hphase : ∀ i, ∀ u ∈ st.unitList i,
      (st'.units u).phase = .terminated ↔ (st.units u).phase = .terminated) : Steady st st' := by
  refine steady_units h hrm hstatus hrecords hconsumed hqueue (by rw [hstart]; exact fun _ hp => hp)
    ?_ ?_
  · intro i _ hall u hu
    exact (hphase i u hu).mp (hall u (by rw [hlist]; exact hu))
  · intro i hi hexited u hu
    rw [hlist] at hu
    exact (hphase i u hu).mpr (h.ended i hi hexited u hu)

end

/-- Only the realm table changes; a realm that is marked as exited there has no units, and its
spawner is through. -/
theorem steady_table (h : Exits st) {rm : RealmManager ρ} (hnext : rm.nextId = st.rm.nextId)
    (hslot : ∀ i, (rm.realms i).active → (st.rm.realms i).active ∧
      (rm.realms i).id = (st.rm.realms i).id ∧
      ((rm.realms i).exited = (st.rm.realms i).exited ∨ (rm.realms i).exited ∧
        st.unitList i = [] ∧ (i, (st.rm.realms i).id) ∉ st.starting)) :
    Steady st { st with rm := rm } := by
  refine { Steady.refl h with nextId := hnext.ge, slot := ?_, ended := ?_, start := ?_ }
  · intro i hi
    obtain ⟨hold, hid, hexited⟩ := hslot i hi
    exact .inl ⟨hold, hid, fun hwas => hexited.elim (·.trans hwas) (·.1)⟩
  · intro i hi hexited
    obtain ⟨hold, -, hsame | ⟨-, hnil, -⟩⟩ := hslot i hi
    · exact h.ended i hold (hsame ▸ hexited)
    · exact fun u hu => absurd hu (hnil ▸ not_mem_nil)
  · intro i x hx hi hid
    obtain ⟨hold, hsameId, hsame | ⟨-, -, hnot⟩⟩ := hslot i hi
    · exact hsame.trans (h.start i x hx hold (hsameId.symm.trans hid))
    · exact absurd (hsameId.symm.trans hid ▸ hx) hnot

/-! ## Exits -/

/-- The status of the realm in slot `i` has been stored. -/
structure Stored (i : Fin maxRealms) (code : Int) (st st' : Life ρ) : Prop where
  status : st'.status = update st.status (st.rm.realms i).id (some code)
  record : ∃ k, st.records k = none ∧
    st'.records = update st.records k (some ((st.rm.realms i).id, code))
  realm : ∃ r, st'.rm = st.rm.setRealm i r ∧ r.active = (st.rm.realms i).active ∧
    r.id = (st.rm.realms i).id ∧ r.exited = true
  unitList : st'.unitList = st.unitList
  starting : st'.starting = st.starting
  consumed : st'.consumed = st.consumed

/-- The realm in slot `i` ends with a status: its record is stored, its waiters are woken and its
units have terminated. -/
structure Ends (i : Fin maxRealms) (code : Int) (st st' : Life ρ) : Prop extends
    Stored i code st st' where
  queue : st'.waitQueue = update st.waitQueue i []
  all : ∀ u ∈ st.unitList i, (st'.units u).phase = .terminated
  others : ∀ u, u ∉ st.unitList i →
    ((st'.units u).phase = .terminated ↔ (st.units u).phase = .terminated)
  woken : ∀ w ∈ st.waitQueue i, (st'.units w).phase = .ready

/-- Units of different realms are different. -/
theorem Placed.not_mem (h : Placed st) {j : Fin maxRealms} (hji : j ≠ i)
    (hu : u ∈ st.unitList j) : u ∉ st.unitList i := by
  intro hc
  have hparent := (h.listed i u hc).2.2
  rw [(h.listed j u hu).2.2] at hparent
  exact hji (Option.some.inj hparent)

theorem Exits.ends (h : Exits st) (hsound : Sound st q) {code : Int}
    (hi : (st.rm.realms i).active) (hrunning : (st.rm.realms i).exited = false)
    (hunits : st.unitList i ≠ []) (he : Ends i code st st') : Exits st' := by
  obtain ⟨k, hfree, hrecords⟩ := he.record
  obtain ⟨r, hrm, hactive, hid, hexited⟩ := he.realm
  -- the realm had no record before
  have hnone : ∀ l c, st.records l ≠ some ((st.rm.realms i).id, c) := by
    intro l c hl
    have hexited := (h.recorded l _ c hl).2 i hi rfl
    rw [hrunning] at hexited
    cases hexited
  have hold : ∀ l x c, st'.records l = some (x, c) →
      (l = k ∧ x = (st.rm.realms i).id ∧ c = code) ∨
      (x ≠ (st.rm.realms i).id ∧ st.records l = some (x, c)) := by
    intro l x c hl
    rw [hrecords] at hl
    by_cases hlk : l = k
    · rw [hlk, update_self] at hl
      cases hl
      exact .inl ⟨hlk, rfl, rfl⟩
    rw [update_of_ne hlk] at hl
    refine .inr ⟨?_, hl⟩
    rintro rfl
    exact hnone l c hl
  have hself : (st'.rm.realms i).active = (st.rm.realms i).active ∧
      (st'.rm.realms i).id = (st.rm.realms i).id ∧ (st'.rm.realms i).exited := by
    rw [hrm, setRealm_self]
    exact ⟨hactive, hid, hexited⟩
  have hother : ∀ j, j ≠ i → st'.rm.realms j = st.rm.realms j := by
    intro j hj
    rw [hrm, setRealm_of_ne hj]
  have hall : ∀ j, j ≠ i → (st'.AllTerminated j ↔ st.AllTerminated j) := by
    intro j hj
    rw [AllTerminated, AllTerminated, he.unitList]
    exact forall₂_congr fun u hu => he.others u (hsound.placed.not_mem hj hu)
  refine ⟨?_, ?_, ?_, ?_, ?_, ?_⟩
  · intro l x c hl
    rw [he.status]
    rcases hold l x c hl with ⟨-, rfl, rfl⟩ | ⟨hx, hl⟩
    · refine ⟨update_self _ _ _, ?_⟩
      intro j hj hjid
      by_cases hji : j = i
      · rw [hji]
        exact hself.2.2
      · rw [hother j hji] at hj hjid
        exact absurd (hsound.placed.distinct j i hj hi hjid) hji
    rw [update_of_ne hx]
    refine ⟨(h.recorded l x c hl).1, ?_⟩
    intro j hj hjid
    by_cases hji : j = i
    · rw [hji]
      exact hself.2.2
    · rw [hother j hji] at hj hjid ⊢
      exact (h.recorded l x c hl).2 j hj hjid
  · intro l m x c d hl hm
    rcases hold l x c hl with ⟨rfl, hx, -⟩ | ⟨hx, hl⟩ <;>
      rcases hold m x d hm with ⟨rfl, hx', -⟩ | ⟨hx', hm⟩
    · rfl
    · exact absurd hx hx'
    · exact absurd hx' hx
    · exact h.unique l m x c d hl hm
  · intro j c hj hstatus hterm
    rw [he.status] at hstatus
    by_cases hji : j = i
    · subst hji
      rw [hself.2.1, update_self] at hstatus
      cases hstatus
      refine ⟨hself.2.2, ?_, ?_⟩
      · rw [he.queue, update_self]
      · intro _
        exact ⟨k, by rw [hrecords, update_self, hself.2.1]⟩
    rw [hother j hji] at hj hstatus ⊢
    rw [update_of_ne fun hc => hji (hsound.placed.distinct j i hj hi hc)] at hstatus
    obtain ⟨hexit, hqueue, hrecord⟩ := h.done j c hj hstatus ((hall j hji).mp hterm)
    refine ⟨hexit, ?_, ?_⟩
    · rw [he.queue, update_of_ne hji]
      exact hqueue
    rw [he.consumed]
    intro hx
    obtain ⟨l, hl⟩ := hrecord hx
    refine ⟨l, ?_⟩
    rw [hrecords, update_of_ne]
    · exact hl
    · rintro rfl
      rw [hfree] at hl
      cases hl
  · intro j hj hexit
    by_cases hji : j = i
    · intro u hu
      rw [he.unitList, hji] at hu
      exact he.all u hu
    · rw [hother j hji] at hj hexit
      exact (hall j hji).mpr (h.ended j hj hexit)
  · intro x c hstatus
    have hnext : st'.rm.nextId = st.rm.nextId := by rw [hrm]; rfl
    rw [hnext]
    rw [he.status] at hstatus
    by_cases hx : x = (st.rm.realms i).id
    · rw [hx]
      exact hsound.placed.ids i hi
    · rw [update_of_ne hx] at hstatus
      exact h.fresh x c hstatus
  intro j x hx hj hjid
  rw [he.starting] at hx
  by_cases hji : j = i
  · subst hji
    exact absurd (hsound.settled.spawner j x hx hi (hself.2.1.symm.trans hjid)).1 hunits
  · rw [hother j hji] at hj hjid ⊢
    exact h.start j x hx hj hjid

/-- A unit exits while another one of its realm goes on. -/
theorem Exits.exit_one (h : Exits st) (hsound : Sound st q) {v : Fin maxUnits}
    (hi : (st.rm.realms i).active) (hu : u ∈ st.unitList i) (hv : v ∈ st.unitList i)
    (hvu : v ≠ u) (hrun : (st.units v).phase ≠ .terminated) {cpu : Nat} {code : Int} :
    Exits ((st.giveStatus i code).endUnit cpu code u) := by
  have hexited := h.running hi hv hrun
  have hphase : ∀ w, w ≠ u →
      ((st.giveStatus i code).endUnit cpu code u).units w = st.units w :=
    fun w hw => endUnit_units_of_ne hw
  have hall : ∀ j, j ≠ i → (((st.giveStatus i code).endUnit cpu code u).AllTerminated j ↔
      st.AllTerminated j) := by
    intro j hji
    refine forall₂_congr fun w hw => ?_
    have hwu : w ≠ u := by
      rintro rfl
      exact hsound.placed.not_mem hji hw hu
    rw [hphase w hwu]
  refine ⟨?_, h.unique, ?_, ?_, ?_, h.start⟩
  · intro k x c hk
    obtain ⟨hstatus, hout⟩ := h.recorded k x c hk
    have hx : x ≠ (st.rm.realms i).id := by
      rintro rfl
      rw [hout i hi rfl] at hexited
      cases hexited
    exact ⟨(update_of_ne hx _ _).trans hstatus, hout⟩
  · intro j c hj hstatus hterm
    by_cases hji : j = i
    · subst hji
      have hend := hterm v hv
      rw [hphase v hvu] at hend
      exact absurd hend hrun
    · refine h.done j c hj ?_ ((hall j hji).mp hterm)
      have hne : (st.rm.realms j).id ≠ (st.rm.realms i).id :=
        fun hc => hji (hsound.placed.distinct j i hj hi hc)
      exact (update_of_ne hne _ _).symm.trans hstatus
  · intro j hj hexit
    by_cases hji : j = i
    · subst hji
      have hexit' : (st.rm.realms j).exited := hexit
      rw [hexited] at hexit'
      cases hexit'
    · exact (hall j hji).mpr (h.ended j hj hexit)
  intro x c hstatus
  by_cases hx : x = (st.rm.realms i).id
  · rw [hx]
    exact hsound.placed.ids i hi
  · exact h.fresh x c ((update_of_ne hx _ _).symm.trans hstatus)

/-! ### The exits of the code -/

/-- With a free record `finalize_realm_exit` stores the status. -/
theorem stored_finalizeRealmExit (hfree : st.RecordFree) (i : Fin maxRealms) (code : Int) :
    Stored i code st ((st.giveStatus i code).finalizeRealmExit i code) := by
  have hstore : ∃ k, st.records k = none ∧
      (st.giveStatus i code).store (st.rm.realms i).id code = { st.giveStatus i code with
        records := update st.records k (some ((st.rm.realms i).id, code)) } := by
    cases hfind : (List.finRange maxExitRecords).find? fun k => (st.records k).isNone with
    | none =>
      obtain ⟨k, hk⟩ := hfree
      have hnone := find?_eq_none.mp hfind k (mem_finRange k)
      rw [hk] at hnone
      exact absurd rfl hnone
    | some k =>
      have hk := find?_some hfind
      refine ⟨k, Option.isNone_iff_eq_none.mp hk, ?_⟩
      have hfind' : (List.finRange maxExitRecords).find?
          (fun k => ((st.giveStatus i code).records k).isNone) = some k := hfind
      rw [store, hfind']
      rfl
  obtain ⟨k, hk, hstore⟩ := hstore
  have heq : (st.giveStatus i code).finalizeRealmExit i code = { st.giveStatus i code with
      records := update st.records k (some ((st.rm.realms i).id, code))
      rm := st.rm.setRealm i { st.rm.realms i with exitCode := code, exited := true } } := by
    rw [finalizeRealmExit]
    rw [show ((st.giveStatus i code).rm.realms i).id = (st.rm.realms i).id from rfl, hstore]
    rfl
  rw [heq]
  exact ⟨rfl, ⟨k, hk, rfl⟩, ⟨_, rfl, rfl, rfl, rfl⟩, rfl, rfl, rfl⟩

theorem foldl_wake_ready (ws : List (Fin maxUnits)) (st : Life ρ) {w : Fin maxUnits}
    (h : w ∈ ws ∨ (st.units w).phase = .ready) : ((ws.foldl wake st).units w).phase = .ready := by
  induction ws generalizing st with
  | nil => exact h.resolve_left (fun hw => nomatch hw)
  | cons v ws ih =>
    refine ih (st.wake v) ?_
    by_cases hwv : w = v
    · right
      simp [wake, setUnit, hwv]
    · rcases h with hw | hw
      · exact .inl ((mem_cons.mp hw).resolve_left hwv)
      · exact .inr (by simpa [wake, setUnit, update_of_ne hwv] using hw)

/-- `wake_all` empties the queue and changes nothing else but the units in it. -/
theorem wakeAll_eq : st.wakeAll i = { st with
      units := (st.wakeAll i).units
      waitQueue := update st.waitQueue i [] } := by
  rw [wakeAll, foldl_wake_eq]

/-- `exit_current_realm` and `kill_realm`. -/
theorem ends_endRealm (hfree : st.RecordFree) (hwait : st.WaitersWait i) (code unitCode : Int) :
    Ends i code st (st.endRealm i code unitCode) := by
  have hstored := stored_finalizeRealmExit hfree i code
  obtain ⟨hqueue, hunits, -⟩ := finalizeRealmExit_keeps (st.giveStatus i code) i code
  rw [endRealm]
  generalize (st.giveStatus i code).finalizeRealmExit i code = st1 at hstored hqueue hunits
  rw [hstored.unitList]
  have honly := endedOnly_finish (st.unitList i) unitCode st1
  generalize (st.unitList i).foldl (finishTerminateUnit unitCode) st1 = st2 at honly
  have hqueue2 : st2.waitQueue = st.waitQueue := honly.waitQueue.trans hqueue
  have hothers : ∀ u, u ∉ st.unitList i → st2.units u = st.units u := by
    intro u hu
    rw [honly.others u hu, hunits]
    rfl
  have halike := alike_wakeAll (waitersWait_units hwait hqueue2 hothers)
  have hready : ∀ w ∈ st.waitQueue i, ((st2.wakeAll i).units w).phase = .ready :=
    fun w hw => foldl_wake_ready _ st2 (.inl (by rw [hqueue2]; exact hw))
  rw [wakeAll_eq] at halike hready ⊢
  refine ⟨⟨honly.status.trans hstored.status, ?_, ?_, honly.unitList.trans hstored.unitList,
    honly.starting.trans hstored.starting, honly.consumed.trans hstored.consumed⟩, ?_, ?_, ?_,
    hready⟩
  · rw [honly.records]
    exact hstored.record
  · rw [honly.rm]
    exact hstored.realm
  · rw [hqueue2]
  · intro u hu
    exact (halike.terminated u).mpr (honly.ended u hu)
  · intro u hu
    refine (halike.terminated u).trans ?_
    rw [hothers u hu]

/-- `exit_current` of the only unit. -/
theorem ends_exitCurrent (hfree : st.RecordFree) (hwait : st.WaitersWait i)
    (hparent : (st.units u).parent = some i) (hready : (st.units u).phase = .ready)
    (hone : st.unitList i = [u]) (cpu : Nat) (code : Int) :
    Ends i code st (st.exitCurrent u cpu code) := by
  have hlength : ((st.giveStatus i code).unitList i).length = 1 := by
    show (st.unitList i).length = 1
    rw [hone]
    rfl
  have hstored := stored_finalizeRealmExit hfree i code
  obtain ⟨hqueue, hunits, -⟩ := finalizeRealmExit_keeps (st.giveStatus i code) i code
  rw [exitCurrent, hparent]
  dsimp only
  rw [if_pos hlength]
  generalize (st.giveStatus i code).finalizeRealmExit i code = st1 at hstored hqueue hunits
  have hqueue1 : st1.waitQueue = st.waitQueue := hqueue
  have hunits1 : st1.units = st.units := hunits
  have halike := alike_wakeAll (waitersWait_units hwait hqueue1 fun v _ => by rw [hunits1])
  have hwoken : ∀ w ∈ st.waitQueue i, ((st1.wakeAll i).units w).phase = .ready :=
    fun w hw => foldl_wake_ready _ st1 (.inl (by rw [hqueue1]; exact hw))
  show Ends i code st ((st1.wakeAll i).endUnit cpu code u)
  rw [wakeAll_eq] at halike hwoken ⊢
  generalize (st1.wakeAll i).units = units at halike hwoken
  refine ⟨{ hstored with }, ?_, ?_, ?_, ?_⟩
  · show update st1.waitQueue i [] = _
    rw [hqueue1]
  · intro v hv
    rw [hone, mem_singleton] at hv
    rw [hv]
    exact endUnit_phase
  · intro v hv
    rw [hone, mem_singleton] at hv
    rw [endUnit_units_of_ne hv]
    refine (halike.terminated v).trans ?_
    rw [hunits1]
  intro w hw
  -- the unit that exits is not among the waiters, which are blocked
  have hwu : w ≠ u := by
    rintro rfl
    rw [(hwait w hw).2.1] at hready
    cases hready
  rw [endUnit_units_of_ne hwu]
  exact hwoken w hw

/-! ## The steps -/

/-- What `UnitManager::create` leaves alone. -/
structure CreateFrame (rid : Nat) (st st' : Life ρ) : Prop where
  rm : st'.rm = st.rm
  status : st'.status = st.status
  records : st'.records = st.records
  consumed : st'.consumed = st.consumed
  waitQueue : st'.waitQueue = st.waitQueue
  listed : ∀ i, ∀ u ∈ st.unitList i, u ∈ st'.unitList i ∧ st'.units u = st.units u
  new : ∀ i, ∀ u ∈ st'.unitList i, u ∈ st.unitList i ∨
    (st.rm.realms i).active = true ∧ (st.rm.realms i).id = rid

theorem createUnit_frame (h : Placed st) (rid cpuId : Nat) (stackOk : Bool) :
    CreateFrame rid st (st.createUnit rid cpuId stackOk).1 := by
  unfold createUnit
  split
  · exact ⟨rfl, rfl, rfl, rfl, rfl, fun _ _ hu => ⟨hu, rfl⟩, fun _ _ hu => .inl hu⟩
  next i hfind =>
  have hi := findId_some hfind
  split
  · exact ⟨rfl, rfl, rfl, rfl, rfl, fun _ _ hu => ⟨hu, rfl⟩, fun _ _ hu => .inl hu⟩
  next v hv =>
  have hfree := find_free_unit hv
  -- a unit that is listed is not in the slot that is taken
  have hother : ∀ {j u} (unit : LifeUnit), u ∈ st.unitList j →
      update st.units v unit u = st.units u := by
    intro j u unit hu
    refine update_of_ne ?_ _ _
    rintro rfl
    rw [(h.listed j u hu).1] at hfree
    cases hfree
  cases stackOk with
  | false => exact ⟨rfl, rfl, rfl, rfl, rfl, fun _ _ hu => ⟨hu, hother _ hu⟩, fun _ _ hu => .inl hu⟩
  | true =>
    refine ⟨rfl, rfl, rfl, rfl, rfl, ?_, ?_⟩
    · intro j u hu
      refine ⟨?_, hother _ hu⟩
      by_cases hji : j = i
      · subst hji
        simp [hu]
      · simpa [update_of_ne hji] using hu
    intro j u hu
    by_cases hji : j = i
    · subst hji
      exact .inr hi
    · exact .inl (by simpa [update_of_ne hji] using hu)

/-- A new unit of a realm that has not exited. -/
theorem CreateFrame.steady {rid : Nat} (hc : CreateFrame rid st st') (h : Exits st)
    (hrunning : ∀ i, (st.rm.realms i).active → (st.rm.realms i).id = rid →
      (st.rm.realms i).exited = false) (hstart : ∀ p ∈ st'.starting, p ∈ st.starting) :
    Steady st st' := by
  refine steady_units h hc.rm hc.status hc.records hc.consumed hc.waitQueue hstart ?_ ?_
  · intro i _ hall u hu
    obtain ⟨hu', hsame⟩ := hc.listed i u hu
    rw [← hsame]
    exact hall u hu'
  intro i hi hexited u hu
  rcases hc.new i u hu with hold | ⟨hi', hid⟩
  · rw [(hc.listed i u hold).2]
    exact h.ended i hi hexited u hold
  · rw [hrunning i hi' hid] at hexited
    cases hexited

theorem reaperStep_keeps (st : Life ρ) (c : Nat) :
    (st.reaperStep c).status = st.status ∧ (st.reaperStep c).records = st.records ∧
      (st.reaperStep c).consumed = st.consumed ∧ (st.reaperStep c).waitQueue = st.waitQueue := by
  rcases reaperStep_shape st c with hst | ⟨u, _, _, _, _, _, hst⟩
  · rw [hst]
    exact ⟨rfl, rfl, rfl, rfl⟩
  rw [hst, retire]
  split
  · exact ⟨rfl, rfl, rfl, rfl⟩
  · rw [foldl_wake_eq]
    exact ⟨rfl, rfl, rfl, rfl⟩

section

variable (h : Exits st)

include h

theorem Exits.reaperStep (hsound : Sound st q) (hmid : st.midway = none) {c : Nat}
    (ht : Tame st (.reaper c)) : Steady st (st.reaperStep c) := by
  cases hq : q c with
  | nil =>
    rw [reaperStep_nil (hq ▸ hsound.queued.rep c)]
    exact .refl h
  | cons u rest =>
    obtain ⟨i, hparent, hl⟩ := hsound.leaves hmid hq ht
    obtain ⟨hstatus, hrecords, hconsumed, hqueue⟩ := reaperStep_keeps st c
    obtain ⟨hactive, hphase⟩ := hsound.queued.queued c u (by rw [hq]; exact mem_cons_self)
    have hmem := (hl.moves hsound hparent ⟨hactive, by rw [hphase]; decide⟩).mem
    refine steady_units h hl.rm hstatus hrecords hconsumed hqueue
      (by rw [hl.starting]; exact fun _ hp => hp) ?_ ?_
    · intro j _ hall v hv
      by_cases hvu : v = u
      · rw [hvu]
        exact hphase
      · exact (hl.others v hvu).2.mp
          (hall v ((hmem j v).mpr ⟨hv, fun hc => hvu (Option.some.inj hc).symm⟩))
    · intro j hj hexited v hv
      obtain ⟨hold, hne⟩ := (hmem j v).mp hv
      exact (hl.others v fun hvu => hne (congrArg some hvu.symm)).2.mpr (h.ended j hj hexited v hold)

omit h in
theorem recordOf_some {rid : Nat} {k : Fin maxExitRecords} (h : st.recordOf rid = some k) :
    ∃ c, st.records k = some (rid, c) := by
  have hk := find?_some h
  cases hrec : st.records k with
  | none =>
    rw [hrec] at hk
    cases hk
  | some r =>
    rw [hrec, Option.any_some, beq_iff_eq] at hk
    exact ⟨r.2, by rw [← hk]⟩

theorem Exits.collect (rid : Nat) : Steady st (st.collect rid).1 := by
  have hslot : ∀ i, ((st.rm.reap rid).realms i).active →
      (st.rm.realms i).active ∧ ((st.rm.reap rid).realms i).id = (st.rm.realms i).id ∧
      (((st.rm.reap rid).realms i).exited = (st.rm.realms i).exited ∨
        ((st.rm.reap rid).realms i).exited ∧ st.unitList i = [] ∧
        (i, (st.rm.realms i).id) ∉ st.starting) := by
    intro i hi
    rcases reap_slot st.rm rid i with hsame | ⟨-, -, hsame | ⟨-, -, hfreed⟩⟩
    · rw [hsame] at hi ⊢
      exact ⟨hi, rfl, .inl rfl⟩
    · rw [hsame] at hi ⊢
      exact ⟨hi, rfl, .inl rfl⟩
    · rw [hfreed] at hi
      cases hi
  have hsteady := steady_table h (keepsRoots_reap st.rm rid).nextId hslot
  rw [Life.collect, consume]
  split
  · exact { hsteady with
      kept := fun _ _ hk => .inr hk
      consumed := fun _ hx => mem_cons_of_mem _ hx }
  next k hk =>
  obtain ⟨c, hrec⟩ := recordOf_some hk
  rw [hrec]
  refine { hsteady with sub := ?_, kept := ?_, consumed := fun _ hx => mem_cons_of_mem _ hx }
  · intro l r hl
    by_cases hlk : l = k
    · subst hlk
      simp at hl
    · simpa [update_of_ne hlk] using hl
  intro l r hl
  by_cases hlk : l = k
  · rw [hlk, hrec] at hl
    cases hl
    exact .inl mem_cons_self
  · exact .inr (by simpa [update_of_ne hlk] using hl)

theorem Exits.wait (hready : (st.units u).phase = .ready)
    (hexited : (st.rm.realms i).exited = false) :
    Steady st { st.setUnit u fun unit => { unit with phase := .blocked } with
      rm := st.rm.setRealm i { st.rm.realms i with waiterPresent := true }
      waitQueue := update st.waitQueue i (st.waitQueue i ++ [u]) } := by
  have hmarked : Steady st { st with
      rm := st.rm.setRealm i { st.rm.realms i with waiterPresent := true } } := by
    refine steady_table h rfl fun j hj => ?_
    by_cases hji : j = i
    · subst hji
      rw [setRealm_self] at hj ⊢
      exact ⟨hj, rfl, .inl rfl⟩
    · rw [setRealm_of_ne hji] at hj ⊢
      exact ⟨hj, rfl, .inl rfl⟩
  have hphase := (alike_wait hready i).terminated
  refine { hmarked with queue := ?_, live := ?_, ended := ?_ }
  · intro j
    by_cases hji : j = i
    · subst hji
      exact .inr ⟨hexited, u, update_self ..⟩
    · exact .inl (update_of_ne hji ..)
  · exact fun j _ hall v hv => (hphase v).mp (hall v hv)
  · exact fun j hj hexit v hv => (hphase v).mpr (hmarked.ended j hj hexit v hv)

theorem Exits.finalizeSlot (hplaced : Placed st) {target : Fin maxUnits}
    (hz : (st.units target).phase = .zombie) : Steady st (st.finalizeSlot target) := by
  refine steady_phases h rfl rfl rfl rfl rfl rfl rfl ?_
  intro i u hu
  have hne : u ≠ target := by
    rintro rfl
    exact (hplaced.listed i u hu).2.1 hz
  simp only [Life.finalizeSlot, update_of_ne hne]

theorem Exits.destroyRealm (hsound : Sound st q) {rid : Nat} {code : Int}
    (hmid : st.midway = some (.destroying rid code)) :
    Steady st { st with rm := st.rm.destroy rid code, midway := some (.marking rid) } := by
  refine { steady_table h (keepsRoots_destroy st.rm rid code).nextId ?_ with }
  intro i hi
  rcases destroy_slot st.rm rid code i with hsame | ⟨-, -, ⟨-, hsame⟩ | ⟨-, hfreed⟩⟩ |
    ⟨hactive, hid, ⟨parent, hsame⟩ | ⟨-, hfreed⟩⟩
  · rw [hsame] at hi ⊢
    exact ⟨hi, rfl, .inl rfl⟩
  · rw [hsame] at hi ⊢
    exact ⟨hi, rfl, .inl rfl⟩
  · rw [hfreed] at hi
    cases hi
  -- the realm itself, which has no units and no spawner
  · rw [hsame] at hi ⊢
    refine ⟨hi, rfl, .inr ⟨rfl, hsound.settled.midway _ hmid i hactive hid, ?_⟩⟩
    intro hx
    exact (hsound.settled.spawner i _ hx hactive rfl).2.2 _ hmid hid.symm
  · rw [hfreed] at hi
    cases hi

theorem Exits.markRealm (rid : Nat) :
    Steady st { st with rm := st.rm.markTeardownComplete rid, midway := none } := by
  refine { steady_table h (keepsRoots_markTeardownComplete st.rm rid).nextId ?_ with }
  intro i hi
  rcases markTeardownComplete_slot st.rm rid i with hsame | ⟨-, -, hsame | ⟨-, hfreed⟩⟩
  · rw [hsame] at hi ⊢
    exact ⟨hi, rfl, .inl rfl⟩
  · rw [hsame] at hi ⊢
    exact ⟨hi, rfl, .inl rfl⟩
  · rw [hfreed] at hi
    cases hi

theorem Exits.newRealm (hsound : Sound st q) {rm : RealmManager ρ}
    (ht : Taken st.rm rm i) {starting : List (Fin maxRealms × Nat)}
    (hstart : starting = st.starting ∨
      starting = (i, st.rm.nextId) :: st.starting ∧ Unmarked (rm.realms i)) :
    Steady st { st with rm := rm, starting := starting } := by
  -- the other slots are as before, and the new realm has no units
  have hslot : ∀ j, (rm.realms j).active → rm.realms j = st.rm.realms j ∨
      (rm.realms j).id = st.rm.nextId ∧ st.unitList j = [] := by
    intro j hj
    by_cases hji : j = i
    · rw [hji]
      exact .inr ⟨ht.id, hsound.placed.unitList_nil ht.free⟩
    · exact .inl (ht.other j hji)
  refine ⟨rfl, fun _ _ hk => hk, fun _ _ hk => .inr hk, fun _ hx => hx, ht.grows.nextId, ?_,
    fun _ => .inl rfl, fun _ _ hall => hall, ?_, ?_⟩
  · intro j hj
    rcases hslot j hj with hsame | ⟨hnew, -⟩
    · rw [hsame] at hj ⊢
      exact .inl ⟨hj, rfl, id⟩
    · exact .inr hnew.ge
  · intro j hj hexited
    rcases hslot j hj with hsame | ⟨-, hnil⟩
    · rw [hsame] at hj hexited
      exact h.ended j hj hexited
    intro u hu
    have hu' : u ∈ st.unitList j := hu
    rw [hnil] at hu'
    cases hu'
  intro j x hx hj hid
  dsimp only at hx hj hid ⊢
  have hold : (j, x) ∈ st.starting → (rm.realms j).exited = false := by
    intro hx
    rcases hslot j hj with hsame | ⟨hnew, -⟩
    · rw [hsame] at hj hid ⊢
      exact h.start j x hx hj hid
    · have hlt := hsound.settled.spawnerIds j x hx
      omega
  rcases hstart with rfl | ⟨rfl, hmarks⟩
  · exact hold hx
  rcases mem_cons.mp hx with hnew | hx
  · rw [(Prod.mk.inj hnew).1]
    exact hmarks.2.2
  · exact hold hx

end

/-- Whoever leaves the wait queue of a realm is ready. -/
def Woken (st st' : Life ρ) : Prop :=
  ∀ i, ∀ w ∈ st.waitQueue i, w ∉ st'.waitQueue i → (st'.units w).phase = .ready

theorem Steady.woken (h : Steady st st') : Woken st st' := by
  intro i w hw hnot
  rcases h.queue i with hsame | ⟨-, u, hmore⟩
  · rw [hsame] at hnot
    exact absurd hw hnot
  · rw [hmore] at hnot
    exact absurd (mem_append_left _ hw) hnot

theorem Ends.woken_all {code : Int} (h : Ends i code st st') : Woken st st' := by
  intro j w hw hnot
  by_cases hji : j = i
  · subst hji
    exact h.woken w hw
  · rw [h.queue, update_of_ne hji] at hnot
    exact absurd hw hnot

/-- One step. -/
theorem Exits.step (h : Exits st) (hsound : Sound st q) {a : LifeAct} (hr : Reporting st a) :
    Exits (lifeStep st a).1 ∧ Woken st (lifeStep st a).1 := by
  have hsteady : ∀ {st' : Life ρ}, Steady st st' → Exits st' ∧ Woken st st' :=
    fun hs => ⟨h.steady hs, hs.woken⟩
  obtain ⟨htame, hkept⟩ := hr
  have heffect := lifeStep_effect st a
  generalize (lifeStep st a).1 = st' at heffect ⊢
  cases heffect with
  | nothing => exact hsteady (.refl h)
  | noRealm parent cfg allocs hnext hrealms =>
    rw [hsound.placed.emptied_eq]
    refine hsteady (steady_table h hnext ?_)
    rw [hrealms]
    exact fun _ hi => ⟨hi, rfl, .inl rfl⟩
  | newRealm parent cfg allocs htaken hstart =>
    rw [hsound.placed.emptied_eq]
    exact hsteady (h.newRealm hsound htaken hstart)
  | @firstUnit i rid cpuId stackOk hmid hx =>
    obtain ⟨hi, hid⟩ := htame hx
    have hframe := createUnit_frame hsound.placed (st.rm.realms i).id cpuId stackOk
    refine hsteady (CreateFrame.steady { hframe with } h ?_ ?_)
    · intro j hj hjid
      obtain rfl : j = i := hsound.placed.distinct j i hj hi hjid
      exact h.start j rid hx hj hid
    dsimp only
    split
    · exact fun p hp => mem_of_mem_erase hp
    · exact fun p hp => hp
  | @abort i _ hx =>
    have htable := steady_table h (keepsRoots_abort st.rm (st.rm.realms i).id).nextId fun j hj => by
      have hunchanged := abort_active hj
      rw [hunchanged] at hj ⊢
      exact ⟨hj, rfl, .inl rfl⟩
    exact hsteady { htable with start := fun j x hx => htable.start j x (mem_of_mem_erase hx) }
  | @unitSpawn u cpuId stackOk hmid hrun =>
    obtain ⟨-, i, -, hi, hid, hmem⟩ := hsound.own_of_mayRun hrun
    have hframe := createUnit_frame hsound.placed (st.units u).rid cpuId stackOk
    refine hsteady (hframe.steady h ?_ ?_)
    · intro j hj hjid
      obtain rfl : j = i := hsound.placed.distinct j i hj hi (hjid.trans hid.symm)
      refine h.running hj hmem ?_
      rw [hkept hrun]
      decide
    · rw [(createUnit_keeps st _ cpuId stackOk).2]
      exact fun _ hp => hp
  | @exitCurrent u cpu code hrun =>
    obtain ⟨hready, hwait⟩ := htame hrun
    obtain ⟨-, i, hparent, hi, -, hmem⟩ := hsound.own_of_mayRun hrun
    rcases hkept hrun i hparent with ⟨hone, hfree⟩ | ⟨v, hv, hvu, hgoes⟩
    · have hends := ends_exitCurrent hfree (hwait i hparent (by rw [hone]; rfl)) hparent hready
        hone cpu code
      refine ⟨h.ends hsound hi (h.running hi hmem (by rw [hready]; decide)) ?_ hends,
        hends.woken_all⟩
      rw [hone]
      exact cons_ne_nil u []
    -- another unit goes on, and so the count is not 1
    have hlength : ¬ ((st.giveStatus i code).unitList i).length = 1 := by
      intro hlen
      obtain ⟨w, hw⟩ := length_eq_one_iff.mp hlen
      have hw' : st.unitList i = [w] := hw
      rw [hw', mem_singleton] at hmem hv
      exact hvu (hv.trans hmem.symm)
    rw [exitCurrent, hparent]
    dsimp only
    rw [if_neg hlength]
    exact ⟨h.exit_one hsound hi hmem hv hvu hgoes, fun j w hw hnot => absurd hw hnot⟩
  | @exitRealm u i code hrun hparent =>
    obtain ⟨-, j, hparent', hi, -, hmem⟩ := hsound.own_of_mayRun hrun
    obtain rfl : i = j := Option.some.inj (hparent.symm.trans hparent')
    obtain ⟨hgoes, hwait⟩ := htame hrun i hparent
    have hends := ends_endRealm (hkept hrun i hparent) hwait code code
    exact ⟨h.ends hsound hi (h.running hi hmem (hgoes u hmem)) (ne_nil_of_mem hmem) hends,
      hends.woken_all⟩
  | @kill rid i sig hfind =>
    obtain ⟨hgoes, hwait⟩ := htame i hfind
    obtain ⟨hunits, hfree⟩ := hkept i hfind
    obtain ⟨u, hu⟩ := exists_mem_of_ne_nil _ hunits
    have hi := (findId_some hfind).1
    have hends := ends_endRealm hfree hwait ((sig % 128 : Nat) : Int) (-(sig : Int))
    exact ⟨h.ends hsound hi (h.running hi hu (hgoes u hu)) hunits hends, hends.woken_all⟩
  | reaper cpu hmid => exact hsteady (h.reaperStep hsound hmid htame)
  | destroyRealm hmid => exact hsteady (h.destroyRealm hsound hmid)
  | markRealm => exact hsteady (h.markRealm _)
  | collect rid => exact hsteady (h.collect rid)
  | wait rid nohang hrun hexited => exact hsteady (h.wait (htame hrun) hexited)
  | joined _ hz => exact hsteady (h.finalizeSlot hsound.placed hz)
  | join uid hrun hf hst =>
    have hterminated := (alike_join (htame hrun) hf hst).terminated
    refine hsteady ?_
    rcases hst with rfl | rfl <;>
      exact steady_phases h rfl rfl rfl rfl rfl rfl rfl fun _ v _ => hterminated v

/-! ## The theorem -/

theorem exits_final {as : List LifeAct} (h : Along lifeStep Reporting (boot ρ) as) :
    ∃ q, Sound (final lifeStep (boot ρ) as) q ∧ Exits (final lifeStep (boot ρ) as) := by
  have hstep : ∀ (st : Life ρ) a, (∃ q, Sound st q ∧ Exits st) → Reporting st a →
      ∃ q, Sound (lifeStep st a).1 q ∧ Exits (lifeStep st a).1 := by
    rintro st a ⟨q, hsound, hexits⟩ hr
    obtain ⟨q', hsound'⟩ := hsound.step hr.1
    exact ⟨q', hsound', (hexits.step hsound hr).1⟩
  exact final_invariant_along hstep ⟨_, sound_boot, exits_boot⟩ h

/-- The record of a realm is found, and its status returned. -/
theorem Exits.collect_status (h : Exits st) {x : Nat} {k : Fin maxExitRecords} {c : Int}
    (hk : st.records k = some (x, c)) : (st.collect x).2 = .waited true c := by
  rw [Life.collect, consume]
  cases hfind : st.recordOf x with
  | none =>
    have hnone := find?_eq_none.mp hfind k (mem_finRange k)
    rw [hk, Option.any_some, beq_self_eq_true] at hnone
    exact absurd rfl hnone
  | some l =>
    obtain ⟨d, hl⟩ := recordOf_some hfind
    obtain rfl : l = k := h.unique l k x d c hl hk
    simp only [hk]

/-- What a waiter of the realm in slot `i` sees if its last exit, or its kill, gave the status
`c`: the realm counts as exited exactly when its units have terminated; then nobody is left waiting
for it, and the first wait that reports the exit returns `c`. -/
def StatusReaches (st : Life ρ) (i : Fin maxRealms) (c : Int) : Prop :=
  ((st.rm.realms i).exited = true ↔ st.AllTerminated i) ∧
    (st.AllTerminated i → st.waitQueue i = [] ∧
      ((st.rm.realms i).id ∉ st.consumed →
        (∀ u nohang, (st.wait u (st.rm.realms i).id nohang).2 = .waited true c) ∧
        (st.waitAgain (st.rm.realms i).id).2 = .waited true c))

theorem Exits.reaches (h : Exits st) (hsound : Sound st q) {c : Int}
    (hi : (st.rm.realms i).active) (hstatus : st.status (st.rm.realms i).id = some c) :
    st.StatusReaches i c := by
  refine ⟨⟨h.ended i hi, fun hall => (h.done i c hi hstatus hall).1⟩, ?_⟩
  intro hall
  obtain ⟨hexited, hqueue, hrecord⟩ := h.done i c hi hstatus hall
  refine ⟨hqueue, ?_⟩
  intro hx
  obtain ⟨k, hk⟩ := hrecord hx
  have hfind : st.rm.findId (st.rm.realms i).id = some i :=
    findId_eq_some hi rfl fun j hj => hsound.placed.distinct j i hj hi
  refine ⟨?_, ?_⟩
  · intro u nohang
    rw [Life.wait, hfind]
    dsimp only
    rw [if_pos hexited]
    exact h.collect_status hk
  · rw [Life.waitAgain, hfind]
    dsimp only
    rw [if_pos hexited]
    exact h.collect_status hk

variable (st)

instance : Decidable st.RecordFree :=
  inferInstanceAs (Decidable (∃ _ : Fin maxExitRecords, _))

instance (u : Fin maxUnits) (i : Fin maxRealms) : Decidable (st.ExitsInOrder u i) :=
  inferInstanceAs (Decidable (_ ∧ _ ∨ ∃ v ∈ _, _ ∧ _))

instance : (a : LifeAct) → Decidable (StatusKept st a)
  | .exitCurrent .. | .exitRealm .. =>
    inferInstanceAs (Decidable (_ → ∀ _ : Fin maxRealms, _ → _))
  | .kill .. => inferInstanceAs (Decidable (∀ _ : Fin maxRealms, _ → _ ∧ _))
  | .unitSpawn .. => inferInstanceAs (Decidable (_ → _))
  | .createRealm .. | .firstUnit .. | .abort .. | .reaper _ | .destroyRealm | .markRealm | .wait ..
  | .waitAgain .. | .join .. | .joinAgain .. => inferInstanceAs (Decidable True)

instance (a : LifeAct) : Decidable (Reporting st a) :=
  inferInstanceAs (Decidable (_ ∧ _))

variable {st}

/-- A realm, whose unit then waits for its child; the child has two units. -/
def parentWaits : List LifeAct :=
  [createUser 0, .firstUnit 0 1 0 true, createUser 1, .firstUnit 1 2 1 true, .unitSpawn 1 1 true,
    .wait 0 2 false]

end Life

end Vespera.Realms
