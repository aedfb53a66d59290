import Vespera.Scheduling.CpuScheduler

/-! # The queues of the scheduler as lists

`Queues s L` says that the three queues are the lists `L`, and that no unit is in two of
them. `Inv s L` adds what the states of the units say about the queues. Each function of
the scheduler gets one lemma: what it needs in order to keep `Inv`, and that it touches no
other unit (`SameOutside`).

The functions that put a unit into a queue need the unit to be in none; nothing in the
source checks that.
-/

namespace Vespera.Scheduling

open Lib Function List Lib.IntrusiveQueue Sched

variable {n : Nat} {cfg : Config n} {s s' : Sched cfg} {L L' : QueueId → List (Fin n)}
  {u : Fin n} {us : List (Fin n)}

/-! ## The invariant -/

section Definitions

variable (s L)

/-- The queues are these lists, and no unit is in two of them. -/
structure Queues : Prop where
  rep : ∀ i, Rep s.next (s.queue i) (L i)
  disjoint : ∀ i j, i ≠ j → ∀ u ∈ L i, u ∉ L j

/-- A ready unit is in the ready or the blocked queue; a running one, unless idle, is in
no queue. -/
structure UnitOk (u : Fin n) : Prop where
  ready : (s.unit u).state = .ready → u ∈ L .ready ∨ u ∈ L .blocked
  running : (s.unit u).state = .running → cfg.isIdle u = false → ∀ i, u ∉ L i

/-- The invariant. -/
structure Inv : Prop where
  queues : Queues s L
  unit : ∀ u, UnitOk s L u

/-- Everything but these units is in order. -/
structure InvBut (us : List (Fin n)) : Prop where
  queues : Queues s L
  unit : ∀ v, v ∉ us → UnitOk s L v

/-- What `wake_one` and `wake_all` need of a unit: it is not in the ready queue, and if it
is in the blocked queue, they know it. -/
@[mk_iff] structure Wakeable (u : Fin n) : Prop where
  ready : u ∉ L .ready
  pending : u ∉ L .pending
  blocked : u ∈ L .blocked → (s.unit u).wakeupNs ≠ 0

end Definitions

/-! ## Queues as lists -/

section Facts

variable (h : Queues s L)

include h

theorem Queues.length_le (i : QueueId) : (L i).length ≤ n := by
  have := (h.rep i).nodup.length_le_card
  rwa [Fintype.card_fin] at this

theorem Queues.units (i : QueueId) : s.units i = L i := (h.rep i).seg.follow (h.length_le i)

/-- One queue becomes another list; the links changed belong to no other queue. -/
theorem Queues.replace {i : QueueId} {next' : Fin n → Option (Fin n)} {q' : IntrusiveQueue (Fin n)}
    {l touched : List (Fin n)} (hrep : Rep next' q' l) (hframe : ExceptOn s.next next' touched)
    (htouched : ∀ j, j ≠ i → ∀ u ∈ L j, u ∉ touched) (hl : ∀ j, j ≠ i → ∀ u ∈ L j, u ∉ l) :
    Queues ({ s with next := next', queue := update s.queue i q' } : Sched cfg) (update L i l) := by
  refine ⟨?_, ?_⟩
  · intro j
    by_cases hj : j = i
    · subst hj
      show Rep next' (update s.queue j q' j) (update L j l j)
      rw [update_self, update_self]
      exact hrep
    · show Rep next' (update s.queue i q' j) (update L i l j)
      rw [update_of_ne hj, update_of_ne hj]
      exact (h.rep j).frame fun u hu => hframe u (htouched j hj u hu)
  intro j k hjk u hu
  by_cases hj : j = i
  · subst hj
    rw [update_self] at hu
    rw [update_of_ne (Ne.symm hjk)]
    exact fun hk => hl k (Ne.symm hjk) u hk hu
  rw [update_of_ne hj] at hu
  by_cases hk : k = i
  · subst hk
    rw [update_self]
    exact hl j hj u hu
  · rw [update_of_ne hk]
    exact h.disjoint j k hjk u hu

theorem Queues.push (i : QueueId)
    (hu : ∀ j, u ∉ L j) : Queues (s.push i u) (update L i (L i ++ [u])) := by
  obtain ⟨hrep, hframe⟩ := push_rep (h.rep i) (hu i)
  refine h.replace hrep hframe ?_ ?_
  · intro j hj v hv
    rw [mem_cons, not_or]
    exact ⟨fun heq => hu j (heq ▸ hv), h.disjoint j i hj v hv⟩
  · intro j hj v hv
    rw [mem_append, mem_singleton, not_or]
    exact ⟨h.disjoint j i hj v hv, fun heq => hu j (heq ▸ hv)⟩

theorem Queues.pop_nil {i : QueueId} (hi : L i = []) : s.pop i = (none, s) := by
  have hrep := h.rep i
  rw [hi] at hrep
  unfold Sched.pop
  rw [IntrusiveQueue.pop_nil hrep]
  dsimp only
  rw [update_eq_self]

/-- The first unit leaves; the other queues keep theirs. -/
theorem Queues.pop_cons {i : QueueId} {l : List (Fin n)} (hi : L i = u :: l) :
    (s.pop i).1 = some u ∧ Queues (s.pop i).2 (update L i l) := by
  have hrep := h.rep i
  rw [hi] at hrep
  obtain ⟨hpop, hrep', hframe⟩ := pop_rep hrep
  have hother : ∀ j, j ≠ i → ∀ v ∈ L j, v ∉ u :: l := by
    intro j hj v hv
    rw [← hi]
    exact h.disjoint j i hj v hv
  refine ⟨hpop, h.replace hrep' hframe ?_ ?_⟩
  · intro j hj v hv hmem
    rw [mem_singleton] at hmem
    exact hother j hj v hv (by rw [hmem]; simp)
  · intro j hj v hv hmem
    exact hother j hj v hv (mem_cons_of_mem u hmem)

/-- A unit that is not there is not removed. -/
theorem Queues.remove (i : QueueId) (u : Fin n) : (s.remove i u).1 = decide (u ∈ L i) ∧
      Queues (s.remove i u).2 (update L i ((L i).erase u)) := by
  obtain ⟨hfound, hrep, hframe⟩ := remove_removed (h.rep i) u (h.length_le i)
  refine ⟨hfound, h.replace hrep hframe ?_ ?_⟩
  · intro j hj v hv
    exact h.disjoint j i hj v hv
  · intro j hj v hv hmem
    exact h.disjoint j i hj v hv (mem_of_mem_erase hmem)

theorem Queues.clearNext (hu : ∀ i, u ∉ L i) : Queues (s.clearNext u) L := by
  refine ⟨fun i => (h.rep i).frame ?_, h.disjoint⟩
  intro v hv
  refine update_of_ne ?_ _ _
  rintro rfl
  exact hu i hv

theorem Queues.congr (hnext : s'.next = s.next) (hqueue : s'.queue = s.queue) : Queues s' L := by
  refine ⟨fun i => ?_, h.disjoint⟩
  rw [hnext, hqueue]
  exact h.rep i

end Facts

/-! ## The states of the units -/

/-- Only these units have changed, in their fields or their place. -/
structure SameOutside (us : List (Fin n)) (s : Sched cfg) (L : QueueId → List (Fin n)) (s' : Sched cfg)
    (L' : QueueId → List (Fin n)) : Prop where
  unit : ∀ v, v ∉ us → s'.unit v = s.unit v
  mem : ∀ v, v ∉ us → ∀ i, v ∈ L' i ↔ v ∈ L i

section

variable (h : SameOutside us s L s' L')

include h

theorem SameOutside.trans {vs : List (Fin n)} {s'' : Sched cfg}
    {L'' : QueueId → List (Fin n)} (h' : SameOutside vs s' L' s'' L'') : SameOutside (us ++ vs) s L s'' L'' := by
  refine ⟨?_, ?_⟩
  · intro v hv
    rw [mem_append, not_or] at hv
    rw [h'.unit v hv.2, h.unit v hv.1]
  · intro v hv i
    rw [mem_append, not_or] at hv
    rw [h'.mem v hv.2 i, h.mem v hv.1 i]

theorem SameOutside.mono {vs : List (Fin n)} (hsub : us ⊆ vs) : SameOutside vs s L s' L' :=
  ⟨fun v hv => h.unit v fun hmem => hv (hsub hmem), fun v hv => h.mem v fun hmem => hv (hsub hmem)⟩

theorem SameOutside.again {s'' : Sched cfg} {L'' : QueueId → List (Fin n)}
    (h' : SameOutside us s' L' s'' L'') : SameOutside us s L s'' L'' :=
  (h.trans h').mono (by simp)

/-- A unit that nothing was done to is as well off as before. -/
theorem SameOutside.unitOk {v : Fin n} (hv : v ∉ us) (hok : UnitOk s L v) : UnitOk s' L' v := by
  refine ⟨?_, ?_⟩
  · intro hstate
    rw [h.unit v hv] at hstate
    rw [h.mem v hv, h.mem v hv]
    exact hok.ready hstate
  · intro hstate hidle i
    rw [h.unit v hv] at hstate
    rw [h.mem v hv]
    exact hok.running hstate hidle i

end

/-- A unit that is neither ready nor running may be anywhere. -/
theorem unitOk_of_state {state : UnitState}
    (h : (s.unit u).state = state) (hready : state ≠ .ready) (hrunning : state ≠ .running) :
    UnitOk s L u := by
  refine ⟨fun hs => ?_, fun hs => ?_⟩
  · exact absurd (h.symm.trans hs) hready
  · exact absurd (h.symm.trans hs) hrunning

/-- Changing one unit's fields. -/
theorem sameOutside_setUnit {f : SchedUnit → SchedUnit} : SameOutside [u] s L (s.setUnit u f) L :=
  ⟨fun _ hv => update_of_ne (by simpa using hv) _ _, fun _ _ _ => Iff.rfl⟩

/-- Moving one unit in or out of a queue. -/
theorem sameOutside_update {i : QueueId}
    {l : List (Fin n)} (hunit : ∀ v, v ≠ u → s'.unit v = s.unit v)
    (hl : ∀ v, v ≠ u → (v ∈ l ↔ v ∈ L i)) : SameOutside [u] s L s' (update L i l) := by
  refine ⟨fun v hv => hunit v (by simpa using hv), ?_⟩
  intro v hv j
  rw [mem_singleton] at hv
  by_cases hj : j = i
  · subst hj
    rw [update_self]
    exact hl v hv
  · rw [update_of_ne hj]

theorem mem_append_singleton_of_ne {l : List (Fin n)} {v : Fin n} (h : v ≠ u) :
    v ∈ l ++ [u] ↔ v ∈ l := by
  simp [h]

theorem sameOutside_push {i : QueueId} : SameOutside [u] s L (s.push i u) (update L i (L i ++ [u])) :=
  sameOutside_update (fun _ _ => rfl) fun _ hv => mem_append_singleton_of_ne hv

theorem sameOutside_remove {i : QueueId} : SameOutside [u] s L (s.remove i u).2 (update L i ((L i).erase u)) :=
  sameOutside_update (fun _ _ => rfl) fun _ hv => mem_erase_of_ne hv

/-! ## add_unit, remove_unit, add_blocked_unit -/

theorem Inv.but (h : Inv s L) (us : List (Fin n)) : InvBut s L us := ⟨h.queues, fun v _ => h.unit v⟩

theorem InvBut.nil (h : InvBut s L []) : Inv s L := ⟨h.queues, fun v => h.unit v not_mem_nil⟩

/-- The unit that was left out is in order again. -/
theorem InvBut.inv (h : InvBut s L [u]) (hu : UnitOk s L u) : Inv s L := by
  refine ⟨h.queues, fun v => ?_⟩
  by_cases hv : v = u
  · rw [hv]
    exact hu
  · exact h.unit v (by simpa using hv)

theorem InvBut.change
    (h : InvBut s L us) (hq : Queues s' L') (hsame : SameOutside us s L s' L') : InvBut s' L' us :=
  ⟨hq, fun v hv => hsame.unitOk hv (h.unit v hv)⟩

theorem InvBut.setUnit (h : InvBut s L [u])
    (f : SchedUnit → SchedUnit) : InvBut (s.setUnit u f) L [u] :=
  h.change (h.queues.congr rfl rfl) sameOutside_setUnit

theorem setUnit_self {s : Sched cfg} {u : Fin n} {f : SchedUnit → SchedUnit} :
    (s.setUnit u f).unit u = f (s.unit u) := update_self ..

theorem setUnit_of_ne {v : Fin n} (h : v ≠ u) {f : SchedUnit → SchedUnit} :
    (s.setUnit u f).unit v = s.unit v := update_of_ne h ..

theorem setState_of_ne {v : Fin n} (h : v ≠ u) {state : UnitState} :
    (s.setState u state).unit v = s.unit v := setUnit_of_ne h

/-- What holds after a unit that is in no queue was added. -/
theorem addUnit_inv (h : InvBut s L (u :: us)) (hu : ∀ i, u ∉ L i) (hus : u ∉ us) :
    InvBut (s.addUnit u) (update L .ready (L .ready ++ [u])) us ∧
      SameOutside [u] s L (s.addUnit u) (update L .ready (L .ready ++ [u])) := by
  have hcleared : Queues ((s.setState u .ready).clearNext u) L :=
    (h.queues.congr rfl rfl : Queues (s.setState u .ready) L).clearNext hu
  have hq := hcleared.push .ready hu
  have hsame : SameOutside [u] s L (s.addUnit u) (update L .ready (L .ready ++ [u])) :=
    sameOutside_update (fun v hv => (setState_of_ne hv : (s.setState u .ready).unit v = s.unit v))
      fun v hv => mem_append_singleton_of_ne hv
  refine ⟨⟨hq, ?_⟩, hsame⟩
  intro v hv
  by_cases hvu : v = u
  · subst hvu
    have hstate : ((s.addUnit v).unit v).state = .ready := by
      show ((s.setState v .ready).unit v).state = .ready
      rw [setState, setUnit_self]
    refine ⟨fun _ => Or.inl ?_, ?_⟩
    · rw [update_self]
      simp
    · intro hrun
      rw [hstate] at hrun
      cases hrun
  · exact hsame.unitOk (by simpa using hvu) (h.unit v (by simp [hvu, hv]))

/-- After an element was taken out of its queue, it is in none. -/
theorem not_mem_erased (h : Queues s L) {i : QueueId}
    (hother : ∀ j, j ≠ i → u ∉ L j) (j : QueueId) : u ∉ update L i ((L i).erase u) j := by
  by_cases hj : j = i
  · subst hj
    rw [update_self]
    exact (h.rep j).nodup.not_mem_erase
  · rw [update_of_ne hj]
    exact hother j hj

theorem removeUnit_queues (h : Queues s L) (u : Fin n) :
    Queues (s.removeUnit u) (update L .ready ((L .ready).erase u)) ∧
      (s.removeUnit u).unit = s.unit := by
  obtain ⟨hfound, hq⟩ := h.remove .ready u
  unfold Sched.removeUnit
  dsimp only
  by_cases hmem : u ∈ L .ready
  · rw [hfound, if_pos (by simpa using hmem)]
    exact ⟨hq.clearNext (not_mem_erased h fun j hj => h.disjoint .ready j (Ne.symm hj) u hmem), rfl⟩
  · rw [hfound, if_neg (by simpa using hmem)]
    exact ⟨hq, rfl⟩

theorem removeUnit_same (h : Queues s L) :
    SameOutside [u] s L (s.removeUnit u) (update L .ready ((L .ready).erase u)) :=
  sameOutside_update (fun v _ => by rw [(removeUnit_queues h u).2]) fun _ hv => mem_erase_of_ne hv

theorem removeUnit_inv (h : Inv s L)
    (hu : u ∈ L .ready → (s.unit u).state ≠ .ready) : ∃ L', Inv (s.removeUnit u) L' := by
  obtain ⟨hq, hunit⟩ := removeUnit_queues h.queues u
  refine ⟨_, ((h.but [u]).change hq (removeUnit_same h.queues)).inv ⟨?_, ?_⟩⟩
  · intro hstate
    rw [hunit] at hstate
    rcases (h.unit u).ready hstate with hready | hblocked
    · exact absurd hstate (hu hready)
    · exact Or.inr (by rw [update_of_ne (by decide)]; exact hblocked)
  intro hstate hidle i hmem
  rw [hunit] at hstate
  have hnot := (h.unit u).running hstate hidle
  by_cases hi : i = .ready
  · subst hi
    exact hnot _ (mem_of_mem_erase hmem)
  · rw [update_of_ne hi] at hmem
    exact hnot i hmem

/-- `add_blocked_unit` moves a unit that is not blocked yet. -/
theorem addBlockedUnit_inv (h : InvBut s L [u])
    (hblocked : u ∉ L .blocked) (hpending : u ∉ L .pending) :
    ∃ L', Inv (s.addBlockedUnit u) L' := by
  have hother : ∀ j, j ≠ QueueId.ready → u ∉ L j := by
    intro j hj
    cases j with
    | ready => exact absurd rfl hj
    | blocked => exact hblocked
    | pending => exact hpending
  have hnot := not_mem_erased h.queues hother
  have hremoved := h.change (h.queues.remove .ready u).2 sameOutside_remove
  have hcleared : InvBut ((s.remove .ready u).2.clearNext u) _ [u] :=
    hremoved.change (hremoved.queues.clearNext hnot) ⟨fun _ _ => rfl, fun _ _ _ => Iff.rfl⟩
  have hset := hcleared.setUnit fun x => { x with state := .blocked }
  have hbut := hset.change (hset.queues.push .blocked hnot) sameOutside_push
  have hstate : ((s.addBlockedUnit u).unit u).state = .blocked := by
    show ((((s.remove .ready u).2.clearNext u).setState u .blocked).unit u).state = .blocked
    rw [setState, setUnit_self]
  exact ⟨_, hbut.inv (unitOk_of_state hstate (by decide) (by decide))⟩

theorem removeBlockedUnit_but
    (h : InvBut s L [u]) (hready : u ∉ L .ready) (hpending : u ∉ L .pending) :
    InvBut (s.removeBlockedUnit u) (update L .blocked ((L .blocked).erase u)) [u] ∧
      (∀ i, u ∉ update L .blocked ((L .blocked).erase u) i) ∧
      SameOutside [u] s L (s.removeBlockedUnit u) (update L .blocked ((L .blocked).erase u)) := by
  have hother : ∀ j, j ≠ QueueId.blocked → u ∉ L j := by
    intro j hj
    cases j with
    | ready => exact hready
    | blocked => exact absurd rfl hj
    | pending => exact hpending
  obtain ⟨-, hq⟩ := h.queues.remove .blocked u
  have hnot := not_mem_erased h.queues hother
  have hsame : SameOutside [u] s L (s.removeBlockedUnit u)
      (update L .blocked ((L .blocked).erase u)) :=
    sameOutside_update (fun _ _ => rfl) fun _ hv => mem_erase_of_ne hv
  exact ⟨h.change (hq.clearNext hnot) hsame, hnot, hsame⟩

/-! ## Waking -/

theorem SameOutside.wakeable
    (h : SameOutside us s L s' L') {v : Fin n} (hv : v ∉ us) (hw : Wakeable s L v) :
    Wakeable s' L' v := by
  refine ⟨?_, ?_, ?_⟩
  · rw [h.mem v hv]
    exact hw.ready
  · rw [h.mem v hv]
    exact hw.pending
  · rw [h.mem v hv, h.unit v hv]
    exact hw.blocked

/-- A unit that is in no queue is added. -/
theorem InvBut.added (h : InvBut s L [u]) (hnot : ∀ i, u ∉ L i) :
    ∃ L', Inv (s.addUnit u) L' ∧ SameOutside [u] s L (s.addUnit u) L' := by
  obtain ⟨hinv, hadded⟩ := addUnit_inv h hnot not_mem_nil
  exact ⟨_, hinv.nil, hadded⟩

/-- A futex wakes a unit that is in the blocked queue or in none. -/
theorem wakeMatch_inv (h : InvBut s L [u]) (hready : u ∉ L .ready) (hpending : u ∉ L .pending) :
    ∃ L', Inv (s.wakeMatch u) L' ∧ SameOutside [u] s L (s.wakeMatch u) L' := by
  have hset := h.setUnit fun x => { x with state := .ready }
  obtain ⟨hbut, hnot, hsame⟩ := removeBlockedUnit_but hset hready hpending
  obtain ⟨L', hinv, hadded⟩ := hbut.added hnot
  exact ⟨L', hinv, (sameOutside_setUnit.again hsame).again hadded⟩

theorem wakeEntry_inv (h : InvBut s L [u]) (hw : Wakeable s L u) :
    ∃ L', Inv (s.wakeEntry u) L' ∧ SameOutside [u] s L (s.wakeEntry u) L' := by
  have hwakeup : ((s.setState u .ready).unit u).wakeupNs = (s.unit u).wakeupNs := by
    rw [setState, setUnit_self]
  unfold Sched.wakeEntry
  dsimp only
  rw [hwakeup]
  split
  · exact wakeMatch_inv h hw.ready hw.pending
  rename_i hzero
  have hnot : ∀ i, u ∉ L i := by
    intro i
    cases i with
    | ready => exact hw.ready
    | blocked => exact fun hmem => hzero (hw.blocked hmem)
    | pending => exact hw.pending
  obtain ⟨L', hinv, hadded⟩ := (h.setUnit fun x => { x with state := .ready }).added hnot
  exact ⟨L', hinv, sameOutside_setUnit.again hadded⟩

section

variable (h : Inv s L)

include h

/-- A wait queue is emptied: the units in it are distinct and can all be woken. -/
theorem wakeEntries_inv (hnodup : us.Nodup) (hw : ∀ u ∈ us, Wakeable s L u) :
    ∃ L', Inv (us.foldl wakeEntry s) L' ∧ SameOutside us s L (us.foldl wakeEntry s) L' := by
  induction us generalizing s L with
  | nil => exact ⟨L, h, ⟨fun _ _ => rfl, fun _ _ _ => Iff.rfl⟩⟩
  | cons u us ih =>
    obtain ⟨hu, hus⟩ := nodup_cons.mp hnodup
    obtain ⟨L₁, hinv, hsame⟩ := wakeEntry_inv (h.but [u]) (hw u (by simp))
    have hw' : ∀ v ∈ us, Wakeable (s.wakeEntry u) L₁ v := by
      intro v hv
      refine hsame.wakeable ?_ (hw v (mem_cons_of_mem u hv))
      rw [mem_singleton]
      rintro rfl
      exact hu hv
    obtain ⟨L₂, hinv2, hsame2⟩ := ih hinv hus hw'
    exact ⟨L₂, hinv2, hsame.trans hsame2⟩

/-! ## yield_cpu -/

theorem Inv.congr (hnext : s'.next = s.next)
    (hqueue : s'.queue = s.queue) (hunit : s'.unit = s.unit) : Inv s' L := by
  refine ⟨h.queues.congr hnext hqueue, fun u => ⟨?_, ?_⟩⟩
  · rw [hunit]
    exact (h.unit u).ready
  · rw [hunit]
    exact (h.unit u).running

/-- A unit that runs and is not idle goes back to the ready queue. -/
theorem requeueCurrent_inv : ∃ L', Inv s.requeueCurrent L' := by
  unfold Sched.requeueCurrent
  rcases s.currentUnit with _ | u
  · exact ⟨L, h⟩
  dsimp only
  split
  · rename_i hcond
    have hnot := (h.unit u).running hcond.2.2.2 (by simpa using hcond.2.2.1)
    have hset := (h.but [u]).setUnit fun x => { x with state := .ready }
    have hbut := hset.change (hset.queues.push .ready hnot) sameOutside_push
    refine ⟨_, hbut.inv ⟨fun _ => Or.inl ?_, ?_⟩⟩
    · rw [update_self]
      simp
    intro hstate
    have hready : ((s.setState u .ready).unit u).state = .ready := by
      rw [setState, setUnit_self]
    exact absurd (hready.symm.trans hstate) (by decide)
  · exact ⟨L, h⟩

/-- The next unit, which leaves the ready queue or is the idle unit, runs. -/
theorem pickNext_inv : ∃ L', Inv (s.pickNext.2.setState s.pickNext.1 .running) L' := by
  unfold Sched.pickNext
  rcases hL : L .ready with _ | ⟨u, l⟩
  · rw [h.queues.pop_nil hL]
    have hset := (h.but [cfg.idleUnit]).setUnit fun x => { x with state := .running }
    refine ⟨L, hset.inv ⟨?_, ?_⟩⟩
    · intro hstate
      rw [setUnit_self] at hstate
      cases hstate
    · intro _ hnot
      rw [cfg.idleUnit_isIdle] at hnot
      cases hnot
  obtain ⟨hpop, hq⟩ := h.queues.pop_cons hL
  dsimp only
  rw [hpop, Option.getD_some]
  have hsame : SameOutside [u] s L (s.pop .ready).2 (update L .ready l) := by
    refine sameOutside_update (fun _ _ => rfl) ?_
    intro v hv
    rw [hL, mem_cons]
    simp [hv]
  have hset := ((h.but [u]).change hq hsame).setUnit fun x => { x with state := .running }
  refine ⟨_, hset.inv ⟨?_, ?_⟩⟩
  · intro hstate
    rw [setUnit_self] at hstate
    cases hstate
  -- it was in the ready queue, so it is in no other
  intro _ _ i hmem
  have hu : u ∈ L .ready := by simp [hL]
  have hnodup := (h.queues.rep .ready).nodup
  rw [hL, nodup_cons] at hnodup
  by_cases hi : i = .ready
  · subst hi
    exact hnodup.1 hmem
  · rw [update_of_ne hi] at hmem
    exact h.queues.disjoint .ready i (Ne.symm hi) u hu hmem

/-- The current unit is queued again if it can run, and the next one taken. -/
theorem yieldCpu_inv : ∃ L', Inv s.yieldCpu L' := by
  unfold Sched.yieldCpu
  split
  · exact ⟨L, h⟩
  obtain ⟨L₁, h1⟩ := requeueCurrent_inv h
  obtain ⟨L₂, h2⟩ := pickNext_inv h1
  refine ⟨L₂, ?_⟩
  dsimp only
  split
  · exact h2
  · exact h2.congr rfl rfl rfl

end

end Vespera.Scheduling
