import Vespera.Lib.Run
import Vespera.Scheduling.Queues

/-! # No unit is lost

`NoneLost` is what a scheduler is for: the ready and the blocked queue are sound lists, no
unit is in them twice, and every unit that could run is in one of them.

The source keeps it only with luck. Nothing stops a unit that is in the ready queue
already from being woken a second time, which cuts off everything behind it
(`timeout_then_wake_loses`), and a signal makes a waiting unit ready without putting it
into a queue. `none_lost` says that this is all: in every run in which units are only
queued when they are in no queue, and signals only reach blocked units that sleep in the
blocked queue (`Safe`), no unit is lost in any state reached.
-/

namespace Vespera.Scheduling

open Lib Function List Lib.IntrusiveQueue Sched

variable {n : Nat} {cfg : Config n} {s : Sched cfg} {L : QueueId → List (Fin n)} {u : Fin n}

/-- Every unit that could run is in a sound queue, once. -/
structure NoneLost (s : Sched cfg) : Prop where
  ready : Rep s.next (s.queue .ready) (s.units .ready)
  blocked : Rep s.next (s.queue .blocked) (s.units .blocked)
  once : (s.units .ready ++ s.units .blocked).Nodup
  queued : ∀ u, (s.unit u).state = .ready → s.currentUnit ≠ some u →
    u ∈ s.units .ready ∨ u ∈ s.units .blocked

/-- The lists are those that the queues hold. -/
theorem Inv.eq_units (h : Inv s L) : L = s.units :=
  funext fun i => (h.queues.units i).symm

/-- The invariant implies the property. -/
theorem Inv.noneLost (h : Inv s L) : NoneLost s := by
  have hunits := h.eq_units
  subst hunits
  refine ⟨h.queues.rep .ready, h.queues.rep .blocked, ?_, fun u hu _ => (h.unit u).ready hu⟩
  rw [nodup_append]
  refine ⟨(h.queues.rep .ready).nodup, (h.queues.rep .blocked).nodup, ?_⟩
  intro u hu v hv huv
  exact h.queues.disjoint .ready .blocked (by decide) u hu (huv ▸ hv)

/-! ## The timer -/

/-- Units outside the ready queue keep their links. -/
theorem addUnit_next (h : Queues s L) {v : Fin n}
    (hu : u ∉ L .ready) (hv : v ∉ u :: L .ready) : (s.addUnit u).next v = s.next v := by
  have hrep : Rep (update s.next u none) (s.queue .ready) (L .ready) := by
    refine (h.rep .ready).frame ?_
    intro x hx
    refine update_of_ne ?_ _ _
    rintro rfl
    exact hu hx
  have hframe := (push_rep hrep hu).2 v hv
  rw [mem_cons, not_or] at hv
  rw [update_of_ne hv.1] at hframe
  exact hframe

/-- The loop over the units that were taken out of the blocked queue: those still to come
are in no queue. -/
theorem wakeLoop_inv {us : List (Fin n)} {fuel : Nat}
    {cur : Option (Fin n)} (h : InvBut s L us) (hchain : LSeg s.next cur us none)
    (hnodup : us.Nodup) (hnot : ∀ u ∈ us, ∀ i, u ∉ L i) (hfuel : us.length ≤ fuel) :
    ∃ L', Inv (wakeLoop fuel s cur) L' := by
  induction us generalizing fuel s L cur with
  | nil =>
    obtain rfl : cur = none := hchain
    refine ⟨L, ?_⟩
    cases fuel with
    | zero => exact h.nil
    | succ fuel => exact h.nil
  | cons u us ih =>
    obtain ⟨rfl, hrest⟩ := hchain
    obtain ⟨hu, hus⟩ := nodup_cons.mp hnodup
    rw [length_cons] at hfuel
    obtain ⟨fuel, rfl⟩ : ∃ k, fuel = k + 1 := ⟨fuel - 1, by omega⟩
    rw [wakeLoop]
    have hset : InvBut (s.setUnit u fun x => { x with wakeupNs := 0 }) L (u :: us) :=
      h.change (h.queues.congr rfl rfl) (sameOutside_setUnit.mono (by simp))
    obtain ⟨hadded, hsame⟩ := addUnit_inv hset (hnot u (by simp)) hu
    refine ih hadded ?_ hus ?_ (by omega)
    · refine hrest.congr ?_
      intro v hv
      refine addUnit_next hset.queues (hnot u (by simp) .ready) ?_
      rw [mem_cons, not_or]
      refine ⟨?_, hnot v (mem_cons_of_mem u hv) .ready⟩
      rintro rfl
      exact hu hv
    · intro v hv i
      rw [hsame.mem v (by rw [mem_singleton]; rintro rfl; exact hu hv)]
      exact hnot v (mem_cons_of_mem u hv) i

/-- The units whose time has come leave the blocked queue together. -/
theorem wakeSleepingUnits_inv (h : Inv s L) {now : Nat} :
    ∃ L', Inv (s.wakeSleepingUnits now) L' := by
  unfold wakeSleepingUnits
  generalize hp : (fun u => decide ((s.unit u).wakeupNs ≤ now) ||
    decide ((s.unit u).state = .ready)) = pred
  have hlen := h.queues.length_le .blocked
  obtain ⟨hkept, htaken, hframe⟩ := extractIf_rep (h.queues.rep .blocked) pred (Nat.lt_succ_of_le hlen)
  have hother : ∀ j, j ≠ QueueId.blocked → ∀ u ∈ L j, u ∉ L .blocked :=
    fun j hj u hu => h.queues.disjoint j .blocked hj u hu
  have hq := h.queues.replace hkept hframe hother
    (fun j hj u hu hmem => hother j hj u hu (mem_of_mem_filter hmem))
  refine wakeLoop_inv ⟨hq, ?_⟩ htaken.seg htaken.nodup ?_ ?_
  · -- what was not taken is where it was
    intro v hv
    have hsame : SameOutside ((L .blocked).filter pred) s L
        ({ s with
            next := (extractIf (n + 1) s.next (s.queue .blocked) pred).2.1
            queue := update s.queue .blocked
              (extractIf (n + 1) s.next (s.queue .blocked) pred).2.2 } : Sched cfg)
        (update L .blocked ((L .blocked).filter fun x => !pred x)) := by
      refine ⟨fun _ _ => rfl, ?_⟩
      intro w hw i
      by_cases hi : i = .blocked
      · subst hi
        rw [update_self, mem_filter]
        rw [mem_filter] at hw
        constructor
        · exact fun hmem => hmem.1
        · exact fun hmem => ⟨hmem, by simpa using fun hpw => hw ⟨hmem, hpw⟩⟩
      · rw [update_of_ne hi]
    exact hsame.unitOk hv (h.unit v)
  · intro u hu i
    rw [mem_filter] at hu
    by_cases hi : i = .blocked
    · subst hi
      rw [update_self, mem_filter]
      rintro ⟨-, hnot⟩
      rw [hu.2] at hnot
      cases hnot
    · rw [update_of_ne hi]
      exact h.queues.disjoint .blocked i (Ne.symm hi) u hu.1
  · exact (length_filter_le _ _).trans hlen

/-! ## Wait queues -/

theorem setWaits_inv (h : Inv s L) (q : WaitId)
    (entries : List (Fin n)) : Inv (s.setWaits q entries) L := h.congr rfl rfl rfl

/-- A unit that waits is in neither queue. -/
theorem addWait_inv (h : InvBut s L [u]) {q : WaitId} : ∃ L', Inv (s.addWait q u) L' := by
  have hset := h.setUnit fun x => { x with state := .blocked }
  obtain ⟨hq, hunit⟩ := removeUnit_queues hset.queues u
  have hstate : (((s.setState u .blocked).removeUnit u).unit u).state = .blocked := by
    show ((removeUnit (s.setUnit u fun x => { x with state := .blocked }) u).unit u).state = .blocked
    rw [hunit, setUnit_self]
  exact ⟨_, setWaits_inv ((hset.change hq (removeUnit_same hset.queues)).inv
    (unitOk_of_state hstate (by decide) (by decide))) q _⟩

theorem wakeEntry_waits : (s.wakeEntry u).waits = s.waits := by
  unfold wakeEntry
  dsimp only
  split <;> rfl

theorem wakeEntries_waits {us : List (Fin n)} : (us.foldl wakeEntry s).waits = s.waits := by
  induction us generalizing s with
  | nil => rfl
  | cons u us ih => rw [foldl_cons, ih, wakeEntry_waits]

theorem wakeAll_waits {q : WaitId} : (s.wakeAll q).waits = update s.waits q [] := by
  show update ((s.waits q).foldl wakeEntry s).waits q [] = _
  rw [wakeEntries_waits]

section Conditions

/-- The units are distinct, and none is in the ready queue or waits for the reaper. -/
@[mk_iff] structure MatchesOk (s : Sched cfg) (L : QueueId → List (Fin n)) (us : List (Fin n)) :
    Prop where
  nodup : us.Nodup
  ready : ∀ u ∈ us, u ∉ L .ready
  pending : ∀ u ∈ us, u ∉ L .pending

variable (s L)

/-- All units of these wait queues can be woken, one after the other. -/
@[mk_iff] structure WakesOk (us : List (Fin n)) : Prop where
  nodup : us.Nodup
  wakeable : ∀ u ∈ us, Wakeable s L u

/-- The units that `wake_matching` wakes. -/
def matched (entries : List (Fin n)) (maxWake uaddr : Nat) : List (Fin n) :=
  (entries.filter fun u => (s.unit u).futexUaddr = uaddr).take maxWake

/-- What a `SIGKILL` for a realm needs: none of its units is waiting for the reaper
already, and the reaper and those who wait for the realm are other units that can be
woken. -/
@[mk_iff] structure KillOk (rid : Nat) : Prop where
  fresh : ∀ u ∈ cfg.unitList rid, u ∉ L .pending
  nodup : (cfg.unitList rid ++ (s.waits .reaper ++ s.waits (.realm rid))).Nodup
  wakeable : ∀ u ∈ s.waits .reaper ++ s.waits (.realm rid), Wakeable s L u

instance : Decidable (Wakeable s L u) := decidable_of_iff' _ (wakeable_iff s L u)

instance (us : List (Fin n)) : Decidable (WakesOk s L us) := decidable_of_iff' _ (wakesOk_iff s L us)

instance (us : List (Fin n)) : Decidable (MatchesOk s L us) :=
  decidable_of_iff' _ (matchesOk_iff s L us)

instance (rid : Nat) : Decidable (KillOk s L rid) := decidable_of_iff' _ (killOk_iff s L rid)

end Conditions

/-- All units of a wait queue, none of which is in it twice. -/
theorem wakeAll_inv (h : Inv s L) {q : WaitId} (hw : WakesOk s L (s.waits q)) :
    ∃ L', Inv (s.wakeAll q) L' ∧ SameOutside (s.waits q) s L (s.wakeAll q) L' := by
  obtain ⟨L', hinv, hsame⟩ := wakeEntries_inv h hw.nodup hw.wakeable
  exact ⟨L', setWaits_inv hinv q [], ⟨hsame.unit, hsame.mem⟩⟩

/-- Several wait queues in a row, each emptied by its turn. -/
theorem wakeAlls_inv {qs : List WaitId} (h : Inv s L)
    (hw : WakesOk s L (qs.flatMap s.waits)) : ∃ L', Inv (qs.foldl wakeAll s) L' := by
  induction qs generalizing s L with
  | nil => exact ⟨L, h⟩
  | cons q qs ih =>
    obtain ⟨hhead, hrest, hdisj⟩ := nodup_append.mp hw.nodup
    obtain ⟨L₁, hinv, hsame⟩ := wakeAll_inv h
      ⟨hhead, fun u hu => hw.wakeable u (mem_append_left _ hu)⟩
    -- a queue that comes again is empty by now
    have hsub : (qs.flatMap (s.wakeAll q).waits).Sublist (qs.flatMap s.waits) := by
      rw [wakeAll_waits]
      clear ih hw hrest hdisj
      induction qs with
      | nil => exact List.Sublist.refl _
      | cons p qs ih =>
        rw [flatMap_cons, flatMap_cons]
        refine List.Sublist.append ?_ ih
        by_cases hpq : p = q
        · rw [hpq, update_self]
          exact nil_sublist _
        · rw [update_of_ne hpq]
    refine ih hinv ⟨hrest.sublist hsub, ?_⟩
    intro u hu
    have hmem := hsub.subset hu
    refine hsame.wakeable ?_ (hw.wakeable u (mem_append_right _ hmem))
    exact fun hq => hdisj u hq u hmem rfl

theorem wakeMatch_futexUaddr {v : Fin n} :
    ((s.wakeMatch u).unit v).futexUaddr = (s.unit v).futexUaddr := by
  show (((s.setState u .ready).setState u .ready).unit v).futexUaddr = _
  by_cases hvu : v = u
  · rw [hvu, setState, setUnit_self, setState, setUnit_self]
  · rw [setState_of_ne hvu, setState_of_ne hvu]

/-- A unit that is woken keeps its futex address until it runs. -/
theorem matched_wakeMatch {entries : List (Fin n)} {maxWake uaddr : Nat} :
    matched (s.wakeMatch u) entries maxWake uaddr = matched s entries maxWake uaddr := by
  unfold matched
  simp only [wakeMatch_futexUaddr]

section

variable (h : Inv s L)

include h

/-- Those that match are woken up to the limit, the others kept. -/
theorem wakeMatchingLoop_inv {maxWake uaddr : Nat} {entries : List (Fin n)} {kept : List (Fin n)}
    {woken : Nat} (hm : MatchesOk s L (matched s entries (maxWake - woken) uaddr)) :
    ∃ L', Inv (wakeMatchingLoop maxWake uaddr entries kept woken s).2.2 L' := by
  induction entries generalizing kept woken s L with
  | nil => exact ⟨L, h⟩
  | cons u entries ih =>
    rw [wakeMatchingLoop]
    split
    · split
      · rename_i heq
        -- the first match is woken; the others are elsewhere
        have hlist : matched s (u :: entries) (maxWake - woken) uaddr =
            u :: matched s entries (maxWake - (woken + 1)) uaddr := by
          unfold matched
          rw [filter_cons_of_pos (by simpa using heq),
            show maxWake - woken = (maxWake - (woken + 1)) + 1 by omega, take_succ_cons]
        rw [hlist] at hm
        obtain ⟨hu, hrest⟩ := nodup_cons.mp hm.nodup
        obtain ⟨L₁, hinv, hsame⟩ := wakeMatch_inv (h.but [u]) (hm.ready u (by simp))
          (hm.pending u (by simp))
        have hne : ∀ v ∈ matched s entries (maxWake - (woken + 1)) uaddr, v ∉ [u] := by
          intro v hv hmem
          rw [mem_singleton] at hmem
          exact hu (hmem ▸ hv)
        refine ih hinv ⟨?_, ?_, ?_⟩
        · rw [matched_wakeMatch]
          exact hrest
        · intro v hv
          rw [matched_wakeMatch] at hv
          rw [hsame.mem v (hne v hv)]
          exact hm.ready v (mem_cons_of_mem u hv)
        · intro v hv
          rw [matched_wakeMatch] at hv
          rw [hsame.mem v (hne v hv)]
          exact hm.pending v (mem_cons_of_mem u hv)
      -- another address: the entry stays
      rename_i hne
      refine ih h ?_
      have hlist : matched s (u :: entries) (maxWake - woken) uaddr =
          matched s entries (maxWake - woken) uaddr := by
        unfold matched
        rw [filter_cons_of_neg (by simpa using hne)]
      rw [← hlist]
      exact hm
    · exact ⟨L, h⟩

theorem wakeMatching_inv {q : WaitId}
    {maxWake uaddr : Nat} (hm : MatchesOk s L (matched s (s.waits q) maxWake uaddr)) :
    ∃ L', Inv (s.wakeMatching q maxWake uaddr).1 L' := by
  have hloop : ∃ L', Inv (wakeMatchingLoop maxWake uaddr (s.waits q) [] 0 s).2.2 L' :=
    wakeMatchingLoop_inv h hm
  obtain ⟨L', hinv⟩ := hloop
  exact ⟨L', setWaits_inv hinv q _⟩

/-! ## SIGKILL -/

/-- A unit that is killed goes to the reaper. -/
theorem terminateUnit_inv
    (hu : u ∉ L .pending) (hw : WakesOk s L (s.waits .reaper)) (hne : u ∉ s.waits .reaper) :
    ∃ L', Inv (s.terminateUnit u) L' ∧
      SameOutside (u :: s.waits .reaper) s L (s.terminateUnit u) L' := by
  -- out of both queues, into the reaper's
  have hset := (h.but [u]).setUnit fun x => { x with state := .terminated }
  have hready := hset.change (hset.queues.remove .ready u).2 sameOutside_remove
  have hblocked := hready.change (hready.queues.remove .blocked u).2 sameOutside_remove
  have hnot : ∀ j, u ∉ update (update L .ready ((L .ready).erase u)) .blocked
      ((update L .ready ((L .ready).erase u) .blocked).erase u) j := by
    refine not_mem_erased hready.queues ?_
    intro j hj
    cases j with
    | ready =>
      rw [update_self]
      exact (h.queues.rep .ready).nodup.not_mem_erase
    | blocked => exact absurd rfl hj
    | pending =>
      rw [update_of_ne (by decide)]
      exact hu
  have hpushed := hblocked.change (hblocked.queues.push .pending hnot) sameOutside_push
  have hset' : SameOutside [u] s L (s.setState u .terminated) L := sameOutside_setUnit
  have hsame := ((hset'.again (sameOutside_remove (i := .ready))).again
    (sameOutside_remove (i := .blocked))).again (sameOutside_push (i := .pending))
  have hstate : ((s.setState u .terminated).unit u).state = .terminated := by
    rw [setState, setUnit_self]
  have hinv := hpushed.inv ⟨fun hr => absurd (hstate.symm.trans hr) (by decide),
    fun hr => absurd (hstate.symm.trans hr) (by decide)⟩
  -- then the reaper is woken
  obtain ⟨L', hinv', hsame'⟩ := wakeAll_inv (q := .reaper) hinv
    ⟨hw.nodup, fun w hmem => hsame.wakeable (by rw [mem_singleton]; rintro rfl; exact hne hmem)
      (hw.wakeable w hmem)⟩
  exact ⟨L', hinv', hsame.trans hsame'⟩

omit h in
theorem terminateUnit_waits : (s.terminateUnit u).waits = update s.waits .reaper [] := by
  unfold terminateUnit
  rw [wakeAll_waits]
  rfl

/-- The units of a realm; the reaper waits for the first only. -/
theorem terminateUnits_inv {us : List (Fin n)}
    (hnodup : us.Nodup) (hpending : ∀ u ∈ us, u ∉ L .pending) (hw : WakesOk s L (s.waits .reaper))
    (hdisj : ∀ u ∈ us, u ∉ s.waits .reaper) : ∃ L', Inv (us.foldl terminateUnit s) L' ∧
      SameOutside (us ++ s.waits .reaper) s L (us.foldl terminateUnit s) L' ∧
      ∀ q, q ≠ .reaper → (us.foldl terminateUnit s).waits q = s.waits q := by
  induction us generalizing s L with
  | nil => exact ⟨L, h, ⟨fun _ _ => rfl, fun _ _ _ => Iff.rfl⟩, fun _ _ => rfl⟩
  | cons u us ih =>
    obtain ⟨hu, hus⟩ := nodup_cons.mp hnodup
    obtain ⟨L₁, hinv, hsame⟩ := terminateUnit_inv h (hpending u (by simp)) hw (hdisj u (by simp))
    have hempty : (s.terminateUnit u).waits .reaper = [] := by
      rw [terminateUnit_waits, update_self]
    have hout : ∀ v ∈ us, v ∉ u :: s.waits .reaper := by
      intro v hv
      rw [mem_cons, not_or]
      refine ⟨?_, hdisj v (mem_cons_of_mem u hv)⟩
      rintro rfl
      exact hu hv
    -- the reaper's wait queue is empty from here on
    obtain ⟨L₂, hinv2, hsame2, hwaits⟩ := ih hinv hus
      (fun v hv => by
        rw [hsame.mem v (hout v hv)]
        exact hpending v (mem_cons_of_mem u hv))
      (by rw [hempty]; exact ⟨nodup_nil, by simp⟩)
      (by rw [hempty]; simp)
    refine ⟨L₂, hinv2, (hsame.trans hsame2).mono ?_, ?_⟩
    · rw [hempty, append_nil]
      intro v hv
      simp only [mem_append, mem_cons] at hv ⊢
      tauto
    · intro q hq
      rw [foldl_cons, hwaits q hq, terminateUnit_waits, update_of_ne hq]

/-- Then those that wait for the realm. -/
theorem kill_inv {rid : Nat} (hk : KillOk s L rid) :
    ∃ L', Inv (((cfg.unitList rid).foldl terminateUnit s).wakeAll (.realm rid)) L' := by
  obtain ⟨hus, hwaiters, hdisj⟩ := nodup_append.mp hk.nodup
  obtain ⟨hreaper, hrealm, hapart⟩ := nodup_append.mp hwaiters
  obtain ⟨L₁, hinv, hsame, hwaits⟩ := terminateUnits_inv h hus hk.fresh
    ⟨hreaper, fun u hu => hk.wakeable u (mem_append_left _ hu)⟩
    (fun u hu hmem => hdisj u hu u (mem_append_left _ hmem) rfl)
  have hq := hwaits (.realm rid) (by simp)
  obtain ⟨L₂, hinv2, -⟩ := wakeAll_inv (q := .realm rid) hinv (by
    rw [hq]
    refine ⟨hrealm, ?_⟩
    intro u hu
    refine hsame.wakeable ?_ (hk.wakeable u (mem_append_right _ hu))
    rw [mem_append, not_or]
    exact ⟨fun hmem => hdisj u hmem u (mem_append_right _ hu) rfl,
      fun hmem => hapart u hmem u hu rfl⟩)
  exact ⟨L₂, hinv2⟩

/-- A realm that kills itself gives the CPU away. -/
theorem killRealmInternal_inv {rid : Nat}
    (hk : KillOk s L rid) : ∃ L', Inv (s.killRealmInternal rid) L' := by
  unfold killRealmInternal
  split
  · -- without a current unit the queues are as before
    have h' : Inv ({ s with currentUnit := none } : Sched cfg) L := h.congr rfl rfl rfl
    have hk' : KillOk ({ s with currentUnit := none } : Sched cfg) L rid :=
      ⟨hk.fresh, hk.nodup, fun u hu => ⟨(hk.wakeable u hu).ready, (hk.wakeable u hu).pending,
        (hk.wakeable u hu).blocked⟩⟩
    obtain ⟨L₁, h₁⟩ := kill_inv h' hk'
    exact yieldCpu_inv h₁
  · obtain ⟨L₁, h₁⟩ := kill_inv h hk
    exact yieldCpu_inv h₁

theorem killRealm_inv {rid : Nat} (hk : KillOk s L rid) : ∃ L', Inv (s.killRealm rid) L' := by
  unfold killRealm
  split
  · exact killRealmInternal_inv h hk
  · exact kill_inv h hk

/-! ## Signals and futexes -/

/-- A signal for a blocked unit is safe if the unit sleeps in the blocked queue. -/
theorem interrupt_inv
    (hu : (s.unit u).state = .blocked → u ∈ L .blocked) : Inv (s.interrupt u) L := by
  unfold interrupt
  split
  · rename_i hblocked
    refine ((h.but [u]).setUnit _).inv ⟨fun _ => Or.inr (hu hblocked), ?_⟩
    intro hstate
    rw [setUnit_self] at hstate
    cases hstate
  · exact h

/-- A field that the scheduler does not look at changes. -/
theorem setUnit_inv {u : Fin n}
    {f : SchedUnit → SchedUnit} (hf : ∀ x, (f x).state = x.state) : Inv (s.setUnit u f) L := by
  refine ((h.but [u]).setUnit f).inv ⟨?_, ?_⟩
  · intro hstate
    rw [setUnit_self, hf] at hstate
    exact (h.unit u).ready hstate
  · intro hstate
    rw [setUnit_self, hf] at hstate
    exact (h.unit u).running hstate

end

/-- The wait queues of the signalfds that a signal concerns. -/
def notified (cfg : Config n) (rid sig : Nat) : List WaitId :=
  ((cfg.signalfds rid).filter fun sfd => sfd.2.testBit sig).map fun sfd => .signalfd sfd.1

/-- Only the signalfds that have the signal in their mask are notified. -/
theorem foldl_notify {sfds : List (Nat × Nat)} {sig : Nat} : sfds.foldl (notify sig) s =
      ((sfds.filter fun sfd => sfd.2.testBit sig).map fun sfd => WaitId.signalfd sfd.1).foldl
        wakeAll s := by
  induction sfds generalizing s with
  | nil => rfl
  | cons sfd sfds ih =>
    rw [foldl_cons, ih, filter_cons]
    unfold notify
    split
    · rw [map_cons, foldl_cons]
    · rfl

theorem interrupt_waits : (s.interrupt u).waits = s.waits := by
  unfold interrupt
  split <;> rfl

theorem interrupt_wakeupNs {v : Fin n} :
    ((s.interrupt u).unit v).wakeupNs = (s.unit v).wakeupNs := by
  unfold interrupt
  split
  · by_cases hvu : v = u
    · rw [hvu, setUnit_self]
    · rw [setUnit_of_ne hvu]
  · rfl

/-- A `FUTEX_WAIT` with a timeout is for a unit that is not blocked already. -/
theorem futexWait_inv (h : Inv s L) {uaddr : Nat} {same : Bool} {timeout : Option Nat}
    (hself : timeout.isSome → ∀ u, s.getCurrentUnit = some u → u ∉ L .blocked ∧ u ∉ L .pending) :
    ∃ L', Inv (s.futexWait uaddr same timeout).1 L' := by
  unfold futexWait
  split
  · exact ⟨L, h⟩
  split
  · exact ⟨L, h⟩
  rcases hcur : s.getCurrentUnit with _ | self
  · exact ⟨L, h⟩
  have hset := (h.but [self]).setUnit fun x => { x with futexUaddr := uaddr }
  cases timeout with
  | none => exact addWait_inv (hset.setUnit fun x => { x with wakeupNs := 0 })
  | some t =>
    obtain ⟨hblocked, hpending⟩ := hself rfl self hcur
    obtain ⟨L', h'⟩ := addBlockedUnit_inv (hset.setUnit fun x => { x with wakeupNs := t })
      hblocked hpending
    exact addWait_inv (h'.but [self])

/-! ## Runs -/

/-- The steps that lose nothing. A unit is only put into a queue when it is in none, taken
out of the ready queue when it is not ready, and signalled while blocked when it is in the
blocked queue. -/
def Safe (s : Sched cfg) : Action n → Prop
  | .addUnit u => ∀ i, u ∉ s.units i
  | .removeUnit u => u ∈ s.units .ready → (s.unit u).state ≠ .ready
  | .yield | .wakeSleepingUnits _ | .addWait _ _ | .waitRemove _ _ | .futexReturn => True
  | .addBlockedUnit u => u ∉ s.units .blocked ∧ u ∉ s.units .pending
  | .wakeOne q => ∀ u ∈ (s.waits q).head?, Wakeable s s.units u
  | .wakeAll q => WakesOk s s.units (s.waits q)
  | .wakeMatching q maxWake uaddr => MatchesOk s s.units (matched s (s.waits q) maxWake uaddr)
  | .futexWait _ _ timeout => timeout.isSome → ∀ u, s.getCurrentUnit = some u →
      u ∉ s.units .blocked ∧ u ∉ s.units .pending
  | .futexWake uaddr val => MatchesOk s s.units (matched s (s.waits (getBucket uaddr)) val uaddr)
  | .signalSendUnit u sig =>
    if sig = sigkill then ∀ c, s.currentUnit = some c → KillOk s s.units (cfg.rid c)
    else (s.unit u).state = .blocked → u ∈ s.units .blocked
  | .signalSendRealm rid sig =>
    if sig = sigkill then KillOk s s.units rid
    else
      (∀ u, (cfg.unitList rid).find? (fun u => ¬ (s.unit u).signalsMasked.testBit sig) = some u →
        (s.unit u).state = .blocked → u ∈ s.units .blocked) ∧
      WakesOk s s.units ((notified cfg rid sig).flatMap s.waits)

/-- A signal for a realm goes to its first unit that does not mask it. -/
theorem signalSendRealm_inv (h : Inv s s.units) {rid sig : Nat}
    (hsafe : Safe s (.signalSendRealm rid sig)) : ∃ L', Inv (s.signalSendRealm rid sig) L' := by
  simp only [Safe] at hsafe
  unfold signalSendRealm
  split
  · rename_i hkill
    rw [if_pos hkill] at hsafe
    exact killRealm_inv h hsafe
  rename_i hkill
  rw [if_neg hkill] at hsafe
  obtain ⟨hfirst, hwakes⟩ := hsafe
  rw [foldl_notify]
  rcases hfind : (cfg.unitList rid).find? fun u => ¬ (s.unit u).signalsMasked.testBit sig with _ | u
  · exact wakeAlls_inv h hwakes
  -- the signalled unit keeps its place and its deadline
  have hinv := interrupt_inv h (hfirst u hfind)
  refine wakeAlls_inv hinv ⟨?_, ?_⟩
  · rw [interrupt_waits]
    exact hwakes.nodup
  intro v hv
  have hv' : v ∈ (notified cfg rid sig).flatMap s.waits := by
    rw [← interrupt_waits]
    exact hv
  have hw := hwakes.wakeable v hv'
  refine ⟨hw.ready, hw.pending, ?_⟩
  intro hblocked
  rw [interrupt_wakeupNs]
  exact hw.blocked hblocked

/-- One step of the scheduler. -/
theorem step_exists_inv (h : Inv s L) {a : Action n} (hsafe : Safe s a) : ∃ L', Inv
    (step s a).1 L' := by
  have hunits := h.eq_units
  subst hunits
  cases a with
  | addUnit u =>
    obtain ⟨L', hinv, -⟩ := (h.but [u]).added hsafe
    exact ⟨L', hinv⟩
  | removeUnit u => exact removeUnit_inv h hsafe
  | yield => exact yieldCpu_inv h
  | addBlockedUnit u => exact addBlockedUnit_inv (h.but [u]) hsafe.1 hsafe.2
  | wakeSleepingUnits now => exact wakeSleepingUnits_inv h
  | addWait q u => exact addWait_inv (h.but [u])
  | wakeOne q =>
    show ∃ L', Inv (s.wakeOne q) L'
    unfold wakeOne
    rcases hq : s.waits q with _ | ⟨u, rest⟩
    · exact ⟨_, h⟩
    have hw : Wakeable s s.units u := hsafe u (by rw [hq]; rfl)
    have hwaits := setWaits_inv h q rest
    obtain ⟨L', hinv, -⟩ := wakeEntry_inv (hwaits.but [u]) { hw with }
    exact ⟨L', hinv⟩
  | wakeAll q =>
    obtain ⟨L', hinv, -⟩ := wakeAll_inv h hsafe
    exact ⟨L', hinv⟩
  | wakeMatching q maxWake uaddr => exact wakeMatching_inv h hsafe
  | waitRemove q u => exact ⟨_, setWaits_inv h q _⟩
  | futexWait uaddr same timeout => exact futexWait_inv h hsafe
  | futexReturn =>
    show ∃ L', Inv s.futexReturn L'
    unfold futexReturn
    split
    · exact ⟨_, h⟩
    · exact ⟨_, setUnit_inv h fun _ => rfl⟩
  | futexWake uaddr val =>
    show ∃ L', Inv (s.futexWake uaddr val).1 L'
    unfold futexWake
    split
    · exact ⟨_, h⟩
    · exact wakeMatching_inv h hsafe
  | signalSendUnit u sig =>
    simp only [Safe] at hsafe
    show ∃ L', Inv (s.signalSendUnit u sig) L'
    unfold signalSendUnit
    split
    · rename_i hkill
      rw [if_pos hkill] at hsafe
      unfold killCurrentRealm
      rcases hcur : s.currentUnit with _ | c
      · exact ⟨_, h⟩
      · exact killRealmInternal_inv h (hsafe c hcur)
    rename_i hkill
    rw [if_neg hkill] at hsafe
    refine ⟨_, interrupt_inv (setUnit_inv h fun _ => rfl) ?_⟩
    rw [setUnit_self]
    exact hsafe
  | signalSendRealm rid sig => exact signalSendRealm_inv h hsafe

/-- At boot no unit is in a queue. -/
theorem booted_inv (h : Booted s) : Inv s fun _ => [] := by
  refine ⟨⟨?_, ?_⟩, ?_⟩
  · intro i
    rw [h.queue i]
    exact rep_empty s.next
  · intro i j _ u hu
    cases hu
  · intro u
    exact unitOk_of_state (h.state u) (by decide) (by decide)

instance decidableForallQueueId (i : QueueId → Prop) [∀ q, Decidable (i q)] : Decidable (∀ q, i q) :=
  decidable_of_iff (i .ready ∧ i .blocked ∧ i .pending)
    ⟨fun ⟨h1, h2, h3⟩ q => by cases q <;> assumption, fun h => ⟨h _, h _, h _⟩⟩

instance decidableSafe (s : Sched cfg) (a : Action n) : Decidable (Safe s a) := by
  cases a <;> unfold Safe <;> infer_instance

/-- In every run from the booted scheduler whose steps are all safe, no unit is lost. -/
theorem none_lost {s : Sched cfg} (hboot : Booted s) {as : List (Action n)}
    (has : Along step Safe s as) : NoneLost (final step s as) := by
  have hstep : ∀ (t : Sched cfg) (a : Action n), (∃ L, Inv t L) → Safe t a → ∃ L, Inv (step t a).1 L := by
    rintro t a ⟨L, hL⟩ hsafe
    exact step_exists_inv hL hsafe
  obtain ⟨L, hL⟩ := final_invariant_along hstep ⟨_, booted_inv hboot⟩ has
  exact hL.noneLost

/-- An idle unit and three others, in one realm. -/
def smallConfig : Config 4 where
  isIdle := fun u => u = 0
  idleUnit := 0
  idleUnit_isIdle := rfl
  rid := fun _ => 1
  unitList := fun _ => [1, 2, 3]
  signalfds := fun _ => []

def smallBoot : Sched smallConfig where
  next := fun _ => none
  queue := fun _ => ⟨none, none⟩
  unit := fun _ => ⟨.new, 0, false, 0, 0, 0⟩
  currentUnit := none
  schedulerEnabled := true
  waits := fun _ => []

theorem smallBoot_booted : Booted smallBoot := ⟨fun _ => rfl, fun _ => rfl, rfl, fun _ => rfl⟩

/-- Unit 1 waits for a futex with a timeout, and unit 2 wakes it in time. -/
def wakeInTime : List (Action 4) :=
  [.addUnit 1, .addUnit 2, .yield, .futexWait 4096 true (some 10), .yield, .futexWake 4096 1, .addUnit 3,
    .yield, .futexReturn]

theorem none_lost_wakeInTime :
    Along step Safe smallBoot wakeInTime ∧ NoneLost (final step smallBoot wakeInTime) :=
  ⟨by decide +kernel, none_lost smallBoot_booted (by decide +kernel)⟩

/-- The same, but the timeout comes first: unit 1 and then unit 3 are in the ready queue
when the wake-up queues unit 1 again. -/
def timeoutThenWake : List (Action 4) :=
  [.addUnit 1, .addUnit 2, .yield, .futexWait 4096 true (some 10), .yield, .wakeSleepingUnits 20, .addUnit 3,
    .futexWake 4096 1]

/-- Unit 3 is ready, but no queue leads to it. -/
theorem timeout_then_wake_loses : ¬ NoneLost (final step smallBoot timeoutThenWake) := by
  intro h
  have hqueued := h.queued 3 (by decide +kernel) (by decide +kernel)
  revert hqueued
  decide +kernel

end Vespera.Scheduling
