import Mathlib
import Vespera.Lib.Run

/-! # Callback timers

The timers of one CPU (`kernel/time/callback_timer.cpp`). A slot is used again when its callback
has run or was cancelled; the generation in a handle tells the uses apart. A callback runs after
the scan of `run_due_callbacks`, outside of the lock: what it schedules are further steps.
-/

namespace Vespera.Time

open Lib Function List

abbrev maxCallbackTimers : Nat := 64

local instance : NeZero maxCallbackTimers := ⟨by decide⟩

/-- `struct Slot`, with `fn` and `arg` as one. -/
structure Slot (α : Type) where
  inUse : Bool
  generation : Nat
  deadlineNs : Nat
  call : Option α

/-- `CallbackHandle` on this CPU. The invalid one is `none` below. -/
structure CallbackHandle where
  slot : Fin maxCallbackTimers
  generation : Nat
deriving DecidableEq

abbrev CpuTimerTable (α : Type) : Type := Fin maxCallbackTimers → Slot α

variable {α : Type}

/-- The table after `init`. -/
def CpuTimerTable.init : CpuTimerTable α := fun _ => ⟨false, 1, 0, none⟩

/-- What `cancel` and `run_due_callbacks` leave in a slot. -/
def Slot.clear (s : Slot α) : Slot α :=
  { s with inUse := false, generation := (s.generation + 1) % 2 ^ 32, call := none }

variable (t : CpuTimerTable α)

def findFreeSlot : Option (Fin maxCallbackTimers) :=
  (finRange maxCallbackTimers).find? fun i => !(t i).inUse

def schedule (deadlineNs : Nat) (call : α) : CpuTimerTable α × Option CallbackHandle :=
  match findFreeSlot t with
  | none => (t, none)
  | some i =>
    (update t i { t i with inUse := true, deadlineNs := deadlineNs, call := some call },
      some ⟨i, (t i).generation⟩)

def cancel : Option CallbackHandle → CpuTimerTable α
  | none => t
  | some h =>
    if (t h.slot).inUse = false ∨ (t h.slot).generation ≠ h.generation then t
    else update t h.slot (t h.slot).clear

def earliestDeadlineNs : Nat :=
  (finRange maxCallbackTimers).foldl (fun minNs i =>
    if (t i).inUse = false then minNs
    else if minNs = 0 ∨ (t i).deadlineNs < minNs then (t i).deadlineNs else minNs) 0

def Slot.isDue (s : Slot α) (now : Nat) : Bool := s.inUse && decide (s.deadlineNs ≤ now)

/-- `run_due_callbacks`: the table, in which each slot is looked at once, and what is run. -/
def runDueCallbacks (now : Nat) : CpuTimerTable α × List α :=
  (fun i => if (t i).isDue now then (t i).clear else t i,
    (finRange maxCallbackTimers).filterMap fun i => if (t i).isDue now then (t i).call else none)

/-! ## Pending timers -/

structure Timer (α : Type) where
  handle : CallbackHandle
  deadlineNs : Nat
  call : α

/-- The table, the handles that were returned, and the timers that were scheduled and neither
cancelled nor reached by a run. -/
structure Session (α : Type) where
  table : CpuTimerTable α
  issued : List CallbackHandle
  pending : List (Timer α)

def Session.start : Session α := ⟨.init, [], []⟩

inductive TimerAct (α : Type) where
  | schedule (deadlineNs : Nat) (call : α)
  | cancel (h : Option CallbackHandle)
  | run (now : Nat)

/-- A step, and the callbacks that are run. -/
def timerStep (s : Session α) : TimerAct α → Session α × List α
  | .schedule d c =>
    match schedule s.table d c with
    | (t, none) => ({ s with table := t }, [])
    | (t, some h) => (⟨t, s.issued ++ [h], s.pending ++ [⟨h, d, c⟩]⟩, [])
  | .cancel k =>
    ({ s with
      table := cancel s.table k
      pending := s.pending.filter fun p => some p.handle ≠ k }, [])
  | .run now =>
    let r := runDueCallbacks s.table now
    ({ s with table := r.1, pending := s.pending.filter fun p => ¬ p.deadlineNs ≤ now }, r.2)

/-- How often a slot was used. -/
def uses (issued : List CallbackHandle) (i : Fin maxCallbackTimers) : Nat :=
  issued.countP fun h => h.slot = i

/-- Deadlines are not zero. -/
def Nonzero (_ : Session α) : TimerAct α → Prop
  | .schedule d _ => d ≠ 0
  | _ => True

instance (s : Session α) : (a : TimerAct α) → Decidable (Nonzero s a)
  | .schedule .. => inferInstanceAs (Decidable (_ ≠ _))
  | .cancel _ | .run _ => inferInstanceAs (Decidable True)

/-! ## The table holds them -/

/-- The timer in a slot. -/
def timerAt (i : Fin maxCallbackTimers) : Option (Timer α) :=
  if (t i).inUse then (t i).call.map (Timer.mk ⟨i, (t i).generation⟩ (t i).deadlineNs) else none

def timers : List (Timer α) :=
  (finRange maxCallbackTimers).filterMap (timerAt t)

/-- The generation of a slot counts its uses, modulo `2 ^ 32`. -/
structure Kept (s : Session α) : Prop where
  pending : (timers s.table).Perm s.pending
  filled : ∀ i, (s.table i).inUse = true → (s.table i).deadlineNs ≠ 0 ∧ (s.table i).call.isSome
  generation : ∀ i, (s.table i).generation =
    (uses s.issued i + if (s.table i).inUse then 0 else 1) % 2 ^ 32
  issued : ∀ h ∈ s.issued, ∃ n, 1 ≤ n ∧ n ≤ uses s.issued h.slot ∧ h.generation = n % 2 ^ 32
  unique : (∀ i, uses s.issued i < 2 ^ 32) → s.issued.Nodup

variable {s : Session α} {t : CpuTimerTable α} {p : Timer α}

theorem kept_start : Kept (Session.start : Session α) := by
  refine ⟨.of_eq (filterMap_eq_nil_iff.mpr fun _ _ => rfl), ?_, ?_, nofun, fun _ => .nil⟩
  all_goals simp [Session.start, CpuTimerTable.init, uses]

/-- A timer is put into a free slot. -/
theorem timers_update {i : Fin maxCallbackTimers} {x : Slot α} (hfree : timerAt t i = none)
    (hx : timerAt (update t i x) i = some p) : (timers (update t i x)).Perm (timers t ++ [p]) := by
  obtain ⟨l1, l2, hl⟩ := append_of_mem (mem_finRange i)
  have hrest : ∀ j ∈ l1 ++ l2, timerAt (update t i x) j = timerAt t j := by
    intro j hj
    have hne : j ≠ i := by
      rintro rfl
      have hnodup := hl ▸ nodup_finRange maxCallbackTimers
      exact (nodup_cons.mp (nodup_middle.mp hnodup)).1 hj
    simp [timerAt, hne]
  have hsame := filterMap_congr hrest
  rw [filterMap_append, filterMap_append] at hsame
  rw [timers, timers, hl, filterMap_append, filterMap_append, filterMap_cons_some hx,
    filterMap_cons_none hfree, ← hsame]
  exact perm_middle.trans (perm_append_singleton _ _).symm

section

variable (h : Kept s)

include h

theorem Kept.schedule {d : Nat} (hd : d ≠ 0) {c : α} : Kept (timerStep s (.schedule d c)).1 := by
  cases hfind : findFreeSlot s.table with
  | none => simpa [timerStep, Time.schedule, hfind] using h
  | some i =>
    have hfree : (s.table i).inUse = false := by simpa using find?_some hfind
    have hgen : (s.table i).generation = (uses s.issued i + 1) % 2 ^ 32 := by simp [h.generation, hfree]
    simp only [timerStep, Time.schedule, hfind]
    refine ⟨(timers_update (by simp [timerAt, hfree]) (by simp [timerAt])).trans
      (h.pending.append_right _), fun j => ?_, fun j => ?_, fun k hk => ?_, fun hfew => ?_⟩
    · by_cases hj : j = i
      · simp [hj, hd]
      · simpa [hj] using h.filled j
    · by_cases hj : j = i
      · simp [hj, hgen, uses]
      · simp [hj, Ne.symm hj, h.generation, uses]
    · simp only [uses, countP_append]
      rcases mem_append.mp hk with hk | hk
      · obtain ⟨n, hn, hle, heq⟩ := h.issued k hk
        exact ⟨n, hn, hle.trans (Nat.le_add_right _ _), heq⟩
      · obtain rfl := mem_singleton.mp hk
        exact ⟨uses s.issued i + 1, by omega, by simp [uses], hgen⟩
    simp only [uses, countP_append] at hfew
    refine (h.unique fun j => (Nat.le_add_right _ _).trans_lt (hfew j)).append
      (nodup_singleton _) (disjoint_singleton.mpr fun hk => ?_)
    -- an earlier handle of the slot has a smaller generation
    obtain ⟨n, hn, hle, heq⟩ := h.issued _ hk
    have hi := hfew i
    simp only [hgen, uses] at heq hle
    omega

/-- The slots `gone` are cleared. -/
theorem Kept.cleared {gone : Fin maxCallbackTimers → Bool} {stays : Timer α → Bool}
    (huse : ∀ i, gone i → (s.table i).inUse) (hstays : ∀ i c, (s.table i).inUse →
      stays ⟨⟨i, (s.table i).generation⟩, (s.table i).deadlineNs, c⟩ = !gone i) : Kept { s with
      table := fun i => if gone i then (s.table i).clear else s.table i
      pending := s.pending.filter stays } := by
  refine ⟨.trans (.of_eq ?_) (h.pending.filter _), fun i => ?_, fun i => ?_, h.issued, h.unique⟩
  · rw [timers, timers, filter_filterMap]
    refine filterMap_congr fun i _ => ?_
    unfold timerAt
    cases hg : gone i <;> cases hu : (s.table i).inUse <;> cases hc : (s.table i).call <;>
      simp_all [Slot.clear, Option.filter_some]
  · cases hg : gone i
    · simpa [hg] using h.filled i
    · simp [hg, Slot.clear]
  · cases hg : gone i
    · simpa [hg] using h.generation i
    · simp [hg, Slot.clear, h.generation, huse i hg]

omit h in
theorem cancel_some (k : CallbackHandle) : cancel t (some k) = fun i =>
    if decide (i = k.slot ∧ (t i).inUse ∧ (t i).generation = k.generation) then (t i).clear
    else t i := by
  funext i
  unfold cancel
  by_cases hi : i = k.slot
  · subst hi
    cases hu : (t k.slot).inUse <;> by_cases hg : (t k.slot).generation = k.generation <;>
      simp [hu, hg]
  simp only [hi, false_and, decide_false, Bool.false_eq_true, if_false]
  split
  · rfl
  · exact update_of_ne hi ..

theorem Kept.cancel (k : Option CallbackHandle) : Kept (timerStep s (.cancel k)).1 := by
  cases k with
  | none => simpa [timerStep, Time.cancel] using h
  | some k =>
    simp only [timerStep, cancel_some]
    refine h.cleared (fun i hi => (decide_eq_true_iff.mp hi).2.1) fun i c hu => ?_
    obtain ⟨j, g⟩ := k
    simp [hu]

theorem Kept.run (now : Nat) : Kept (timerStep s (.run now)).1 :=
  h.cleared (fun i hi => (Bool.and_eq_true_iff.mp hi).1) fun i c hu => by
    simp [Slot.isDue, hu, ← decide_not]

/-- A run runs what is pending and due. -/
theorem Kept.ran (now : Nat) : (runDueCallbacks s.table now).2.Perm
    ((s.pending.filter fun p => p.deadlineNs ≤ now).map Timer.call) := by
  refine .trans (.of_eq ?_) ((h.pending.filter _).map _)
  rw [timers, filter_filterMap, map_filterMap]
  refine filterMap_congr fun i _ => ?_
  unfold timerAt Slot.isDue
  cases (s.table i).inUse <;> cases (s.table i).call <;>
    by_cases hd : (s.table i).deadlineNs ≤ now <;> simp [hd]
  exact Nat.lt_of_not_le hd

/-- The slots in use are those of the pending timers. -/
theorem Kept.mem_pending {i : Fin maxCallbackTimers} {g d : Nat} :
    (∃ c, ⟨⟨i, g⟩, d, c⟩ ∈ s.pending) ↔
      (s.table i).inUse ∧ (s.table i).generation = g ∧ (s.table i).deadlineNs = d := by
  simp only [← h.pending.mem_iff, timers, mem_filterMap, mem_finRange, true_and, timerAt,
    Option.ite_none_right_eq_some, Option.map_eq_some_iff, Timer.mk.injEq, CallbackHandle.mk.injEq]
  constructor
  · rintro ⟨c, j, hu, c', hc, ⟨rfl, rfl⟩, rfl, rfl⟩
    exact ⟨hu, rfl, rfl⟩
  · rintro ⟨hu, rfl, rfl⟩
    obtain ⟨c, hc⟩ := Option.isSome_iff_exists.mp (h.filled i hu).2
    exact ⟨c, i, hu, c, hc, ⟨rfl, rfl⟩, rfl, rfl⟩

end

theorem earliest_loop (hpos : ∀ i, (t i).inUse → (t i).deadlineNs ≠ 0)
    (l : List (Fin maxCallbackTimers)) (m : Nat) :
    let r := l.foldl (fun minNs i =>
      if (t i).inUse = false then minNs
      else if minNs = 0 ∨ (t i).deadlineNs < minNs then (t i).deadlineNs else minNs) m
    (∀ i ∈ l, (t i).inUse → r ≠ 0 ∧ r ≤ (t i).deadlineNs) ∧ (m ≠ 0 → r ≠ 0 ∧ r ≤ m) ∧
      (r = m ∨ ∃ i ∈ l, (t i).inUse ∧ r = (t i).deadlineNs) := by
  induction l generalizing m with
  | nil => simp
  | cons i l ih =>
    simp only [foldl_cons]
    grind

/-- In every state reached: the handles that were returned differ; a run runs, once each, the
callbacks that are pending and due; to cancel what is not pending changes nothing; and the earliest
deadline is that of the pending timers. -/
theorem callbacks_run_once (acts : List (TimerAct α)) (hpos : Along timerStep Nonzero .start acts)
    (hfew : ∀ i, uses (final timerStep (Session.start : Session α) acts).issued i < 2 ^ 32) :
    let s := final timerStep .start acts
    s.issued.Nodup ∧
      (∀ now, (timerStep s (.run now)).2.Perm
        ((s.pending.filter fun p => p.deadlineNs ≤ now).map Timer.call)) ∧
      (∀ h, (∀ p ∈ s.pending, p.handle ≠ h) → timerStep s (.cancel (some h)) = (s, [])) ∧
      (s.pending = [] → earliestDeadlineNs s.table = 0) ∧
      (s.pending ≠ [] → ∃ p ∈ s.pending, p.deadlineNs = earliestDeadlineNs s.table) ∧
      ∀ p ∈ s.pending, earliestDeadlineNs s.table ≤ p.deadlineNs := by
  have hstep : ∀ (s : Session α) a, Kept s → Nonzero s a → Kept (timerStep s a).1 := by
    intro s a hs ha
    cases a with
    | schedule d c => exact hs.schedule ha
    | cancel k => exact hs.cancel k
    | run now => exact hs.run now
  have h := final_invariant_along hstep kept_start hpos
  generalize final timerStep Session.start acts = s at h hfew ⊢
  obtain ⟨hmin, -, hin⟩ := earliest_loop (fun i hi => (h.filled i hi).1)
    (finRange maxCallbackTimers) 0
  have hslot : ∀ p ∈ s.pending, (s.table p.handle.slot).inUse ∧
      (s.table p.handle.slot).deadlineNs = p.deadlineNs := by
    intro p hp
    obtain ⟨hu, -, hd⟩ := h.mem_pending.mp ⟨p.call, hp⟩
    exact ⟨hu, hd⟩
  refine ⟨h.unique hfew, h.ran, ?_, ?_, ?_, ?_⟩
  · intro k hk
    have hstay : cancel s.table (some k) = s.table := by
      refine if_pos ?_
      by_contra hyes
      rw [not_or, Bool.not_eq_false, not_not] at hyes
      obtain ⟨c, hc⟩ := h.mem_pending.mpr ⟨hyes.1, hyes.2, rfl⟩
      exact hk _ hc rfl
    have hfilter : s.pending.filter (fun p => some p.handle ≠ some k) = s.pending :=
      filter_eq_self.mpr fun p hp => by simpa using hk p hp
    rw [timerStep, hstay, hfilter]
  · intro hnil
    rcases hin with hzero | ⟨i, -, hu, -⟩
    · exact hzero
    · obtain ⟨c, hc⟩ := h.mem_pending.mpr ⟨hu, rfl, rfl⟩
      simp [hnil] at hc
  · intro hne
    obtain ⟨p, hp⟩ := exists_mem_of_ne_nil _ hne
    rcases hin with hzero | ⟨i, -, hu, hd⟩
    · exact absurd hzero (hmin _ (mem_finRange _) (hslot p hp).1).1
    · obtain ⟨c, hc⟩ := h.mem_pending.mpr ⟨hu, rfl, rfl⟩
      exact ⟨_, hc, hd.symm⟩
  · intro p hp
    obtain ⟨hu, hd⟩ := hslot p hp
    exact hd ▸ (hmin _ (mem_finRange _) hu).2

/-- The first callback is cancelled and its slot taken by the third, which is due with the second;
its handle cancels nothing any more. -/
theorem callbacks_run_once_reused :
    let acts : List (TimerAct Char) := [.schedule 5 'a', .schedule 7 'b', .cancel (some ⟨0, 1⟩),
      .schedule 6 'c', .schedule 9 'd', .cancel (some ⟨0, 1⟩)]
    (timerStep (final timerStep .start acts) (.run 7)).2.Perm ['b', 'c'] := by
  intro acts
  exact (callbacks_run_once acts (by decide) (by decide +kernel)).2.1 7

end Vespera.Time
