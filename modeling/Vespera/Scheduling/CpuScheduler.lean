import Mathlib
import Vespera.Klib.Result
import Vespera.Lib.IntrusiveQueue

/-! # The scheduler of one CPU

`kernel/scheduling/cpu_scheduler.cpp`, `kernel/sync/wait_queue.cpp`, the futex calls of
`sys_futex.cpp`, `signal_send_unit` and `signal_send_realm` of `kernel/signals/signal.cpp`,
and what a `SIGKILL` runs in `kernel/scheduling/termination.cpp` and `reaper.cpp`, for one
CPU. There are `n` units; `Unit::next` is the field `next`, shared by the ready queue,
the blocked queue and the reaper's queue.

A wait queue owns its entries, so it is a list here. Left out are the deadlines of the
sleep timer, `need_resched` and the quantum, which decide when a step happens and not
what it does, the context switch itself, and the accounting of CPU time.
-/

namespace Vespera.Scheduling

open Klib Function Lib

inductive UnitState where
  | new
  | ready
  | running
  | blocked
  | zombie
  | terminated
deriving DecidableEq, Repr

/-- The fields of `Unit` that the steps change, without `next`. -/
structure SchedUnit where
  state : UnitState
  wakeupNs : Nat
  interrupted : Bool
  signalsPending : Nat
  signalsMasked : Nat
  futexUaddr : Nat
deriving DecidableEq, Repr

/-- What the steps leave alone: which units are idle units and which one is this CPU's, the
realms of the units, the units of the realms, and the signalfds of the realms with their
masks. -/
structure Config (n : Nat) where
  isIdle : Fin n → Bool
  idleUnit : Fin n
  idleUnit_isIdle : isIdle idleUnit = true
  rid : Fin n → Nat
  unitList : Nat → List (Fin n)
  signalfds : Nat → List (Nat × Nat)

/-- The queues that are linked through `Unit::next`. -/
inductive QueueId where
  | ready
  | blocked
  | pending
deriving DecidableEq, Repr

/-- The wait queues: of the futex buckets, of the realms, of the reaper, of the readers and the
writers of a channel, of the eventfds, timerfds and signalfds, and all others. -/
inductive WaitId where
  | futex (bucket : Nat)
  | realm (rid : Nat)
  | reaper
  | channelRead (id : Nat)
  | channelWrite (id : Nat)
  | eventfd (id : Nat)
  | timerfd (id : Nat)
  | signalfd (id : Nat)
  | other (id : Nat)
deriving DecidableEq, Repr

/-- `CpuScheduler` with the units and what they wait for. -/
structure Sched {n : Nat} (cfg : Config n) where
  next : Fin n → Option (Fin n)
  queue : QueueId → IntrusiveQueue (Fin n)
  unit : Fin n → SchedUnit
  currentUnit : Option (Fin n)
  schedulerEnabled : Bool
  waits : WaitId → List (Fin n)

namespace Sched

instance lawfulUnits (n : Nat) : LawfulBEq (Fin n) := inferInstance

variable {n : Nat} {cfg : Config n}

/-! ## Fields and queues -/

variable (s : Sched cfg)

/-- Change the fields of one unit. -/
def setUnit (u : Fin n) (f : SchedUnit → SchedUnit) : Sched cfg :=
  { s with unit := update s.unit u (f (s.unit u)) }

/-- `unit->state = state`. -/
def setState (u : Fin n) (state : UnitState) : Sched cfg :=
  s.setUnit u fun x => { x with state := state }

/-- `unit->next = nullptr`. -/
def clearNext (u : Fin n) : Sched cfg :=
  { s with next := update s.next u none }

/-- `push` on one of the queues. -/
def push (i : QueueId) (u : Fin n) : Sched cfg :=
  let r := IntrusiveQueue.push s.next (s.queue i) u
  { s with next := r.1, queue := update s.queue i r.2 }

/-- `pop` on one of the queues. -/
def pop (i : QueueId) : Option (Fin n) × Sched cfg :=
  let r := IntrusiveQueue.pop s.next (s.queue i)
  (r.1, { s with next := r.2.1, queue := update s.queue i r.2.2 })

/-- `remove` on one of the queues. -/
def remove (i : QueueId) (u : Fin n) : Bool × Sched cfg :=
  let r := IntrusiveQueue.remove n s.next (s.queue i) u
  (r.1, { s with next := r.2.1, queue := update s.queue i r.2.2 })

/-- The units that the queue's pointers lead to. -/
def units (i : QueueId) : List (Fin n) :=
  IntrusiveQueue.follow s.next n (s.queue i).head

/-! ## cpu_scheduler.cpp -/

/-- `add_unit_to_cpu`, and `add_unit` on an initialised scheduler. -/
def addUnit (u : Fin n) : Sched cfg :=
  ((s.setState u .ready).clearNext u).push .ready u

/-- `remove_unit_from_cpu`, and `remove_unit`. -/
def removeUnit (u : Fin n) : Sched cfg :=
  let r := s.remove .ready u
  if r.1 then r.2.clearNext u else r.2

/-- Is there a current unit, in this state? -/
def currentIs (state : UnitState) : Bool :=
  s.currentUnit.any fun u => (s.unit u).state = state

/-- The first part of `yield_cpu`: a current unit that is still running is queued again. -/
def requeueCurrent : Sched cfg :=
  match s.currentUnit with
  | none => s
  | some prev =>
    if (s.unit prev).state ≠ .terminated ∧ (s.unit prev).state ≠ .blocked ∧ ¬ cfg.isIdle prev ∧
        (s.unit prev).state = .running then
      (s.setState prev .ready).push .ready prev
    else s

def pickNext : Fin n × Sched cfg :=
  let r := s.pop .ready
  (r.1.getD cfg.idleUnit, r.2)

def yieldCpu : Sched cfg :=
  if ¬ s.schedulerEnabled then s
  else
    let r := s.requeueCurrent.pickNext
    if some r.1 = s.currentUnit ∧ ¬ s.currentIs .terminated ∧ ¬ s.currentIs .blocked then
      r.2.setState r.1 .running
    else { r.2.setState r.1 .running with currentUnit := some r.1 }

def addBlockedUnit (u : Fin n) : Sched cfg :=
  (((s.remove .ready u).2.clearNext u).setState u .blocked).push .blocked u

def removeBlockedUnit (u : Fin n) : Sched cfg := (s.remove .blocked u).2.clearNext u

/-- The loop over the units that `wake_sleeping_units` took out of the blocked queue. -/
def wakeLoop : Nat → Sched cfg → Option (Fin n) → Sched cfg
  | 0, s, _ => s
  | _ + 1, s, none => s
  | fuel + 1, s, some woken =>
    let next := s.next woken
    wakeLoop fuel ((s.setUnit woken fun x => { x with wakeupNs := 0 }).addUnit woken) next

/-- `wake_sleeping_units` at the time `now`. -/
def wakeSleepingUnits (now : Nat) : Sched cfg :=
  let r := IntrusiveQueue.extractIf (n + 1) s.next (s.queue .blocked) fun u =>
    decide ((s.unit u).wakeupNs ≤ now) || decide ((s.unit u).state = .ready)
  wakeLoop n { s with next := r.2.1, queue := update s.queue .blocked r.2.2 } r.1.head

/-! ## wait_queue.cpp -/

/-- Replace the entries of a wait queue. -/
def setWaits (q : WaitId) (entries : List (Fin n)) : Sched cfg :=
  { s with waits := update s.waits q entries }

def addWait (q : WaitId) (u : Fin n) : Sched cfg :=
  let s := (s.setState u .blocked).removeUnit u
  s.setWaits q (s.waits q ++ [u])

/-- What `wake_one` and `wake_all` do with an entry. -/
def wakeEntry (u : Fin n) : Sched cfg :=
  let s := s.setState u .ready
  let s := if (s.unit u).wakeupNs ≠ 0 then s.removeBlockedUnit u else s
  s.addUnit u

/-- `wake_all`, and `wake_all_irq`. -/
def wakeAll (q : WaitId) : Sched cfg :=
  ((s.waits q).foldl wakeEntry s).setWaits q []

/-- `wake_one`, and `wake_one_irq`. -/
def wakeOne (q : WaitId) : Sched cfg :=
  match s.waits q with
  | [] => s
  | u :: rest => (s.setWaits q rest).wakeEntry u

/-- What `wake_matching` does with a matching entry. -/
def wakeMatch (u : Fin n) : Sched cfg :=
  ((s.setState u .ready).removeBlockedUnit u).addUnit u

/-- The loop of `wake_matching`: the number of woken units, the entries that stay, the
state. The entries in front of the current one are `kept`. -/
def wakeMatchingLoop (maxWake uaddr : Nat) :
    List (Fin n) → List (Fin n) → Nat → Sched cfg → Nat × List (Fin n) × Sched cfg
  | [], kept, woken, s => (woken, kept, s)
  | u :: rest, kept, woken, s =>
    if woken < maxWake then
      if (s.unit u).futexUaddr = uaddr then
        wakeMatchingLoop maxWake uaddr rest kept (woken + 1) (s.wakeMatch u)
      else wakeMatchingLoop maxWake uaddr rest (kept ++ [u]) woken s
    else (woken, kept ++ u :: rest, s)

/-- `wake_matching` with `match_futex_uaddr`, the one predicate it is used with. -/
def wakeMatching (q : WaitId) (maxWake uaddr : Nat) : Sched cfg × Nat :=
  let r := wakeMatchingLoop maxWake uaddr (s.waits q) [] 0 s
  (r.2.2.setWaits q r.2.1, r.1)

/-- `WaitQueue::remove`. -/
def waitRemove (q : WaitId) (u : Fin n) : Sched cfg × Bool :=
  (s.setWaits q ((s.waits q).erase u), decide (u ∈ s.waits q))

/-! ## sys_futex.cpp -/

def getCurrentUnit : Option (Fin n) :=
  if s.schedulerEnabled then s.currentUnit else none

def getBucket (uaddr : Nat) : WaitId := .futex (uaddr / 4 % 64)

/-- `FUTEX_WAIT` up to the yield. `same` is the comparison of `*uaddr` with `val`, and
`timeout` the deadline in nanoseconds, if the call has one. -/
def futexWait (uaddr : Nat) (same : Bool) (timeout : Option Nat) : Sched cfg × Int :=
  if uaddr = 0 ∨ uaddr % 4 ≠ 0 then (s, Error.inval.toErrno)
  else if ¬ same then (s, Error.again.toErrno)
  else
    match s.getCurrentUnit with
    | none => (s, 0)
    | some self =>
      let s := s.setUnit self fun x => { x with futexUaddr := uaddr }
      let s := match timeout with
        | some t => (s.setUnit self fun x => { x with wakeupNs := t }).addBlockedUnit self
        | none => s.setUnit self fun x => { x with wakeupNs := 0 }
      (s.addWait (getBucket uaddr) self, 0)

/-- `FUTEX_WAIT` after the yield. -/
def futexReturn : Sched cfg :=
  match s.getCurrentUnit with
  | none => s
  | some self => s.setUnit self fun x => { x with futexUaddr := 0 }

/-- `FUTEX_WAKE`, and `FUTEX_WAKE_ALL` with the largest `val`. -/
def futexWake (uaddr val : Nat) : Sched cfg × Int :=
  if uaddr = 0 ∨ uaddr % 4 ≠ 0 then (s, Error.inval.toErrno)
  else
    let r := s.wakeMatching (getBucket uaddr) val uaddr
    (r.1, r.2)

/-! ## Signals -/

abbrev sigkill : Nat := 9

/-- `finish_terminate_unit` with `Reaper::enqueue`. -/
def terminateUnit (u : Fin n) : Sched cfg :=
  let s := ((s.setState u .terminated).remove .ready u).2
  let s := (s.remove .blocked u).2
  (s.push .pending u).wakeAll .reaper

/-- `kill_realm_internal`, for the realm of the current unit. -/
def killRealmInternal (rid : Nat) : Sched cfg :=
  let s : Sched cfg :=
    if s.currentUnit.any fun u => cfg.rid u = rid then { s with currentUnit := none } else s
  (((cfg.unitList rid).foldl terminateUnit s).wakeAll (.realm rid)).yieldCpu

def killRealm (rid : Nat) : Sched cfg :=
  if s.currentUnit.any fun u => cfg.rid u = rid then s.killRealmInternal rid
  else ((cfg.unitList rid).foldl terminateUnit s).wakeAll (.realm rid)

/-- `kill_current_realm`; without a current unit the system stops. -/
def killCurrentRealm : Sched cfg :=
  match s.currentUnit with
  | none => s
  | some u => s.killRealmInternal (cfg.rid u)

/-- A signal makes a blocked unit ready, and nothing else. -/
def interrupt (u : Fin n) : Sched cfg :=
  if (s.unit u).state = .blocked then
    s.setUnit u fun x => { x with interrupted := true, state := .ready }
  else s

def signalSendUnit (u : Fin n) (sig : Nat) : Sched cfg :=
  if sig = sigkill then s.killCurrentRealm
  else
    (s.setUnit u fun x => { x with signalsPending := x.signalsPending ||| 2 ^ sig }).interrupt u

def notify (sig : Nat) (s : Sched cfg) (sfd : Nat × Nat) : Sched cfg :=
  if sfd.2.testBit sig then s.wakeAll (.signalfd sfd.1) else s

def signalSendRealm (rid sig : Nat) : Sched cfg :=
  if sig = sigkill then s.killRealm rid
  else
    let s := match (cfg.unitList rid).find? fun u => ¬ (s.unit u).signalsMasked.testBit sig with
      | none => s
      | some u => s.interrupt u
    (cfg.signalfds rid).foldl (notify sig) s

end Sched

/-! ## Steps -/

/-- The atomic steps. -/
inductive Action (n : Nat) where
  | addUnit (u : Fin n)
  | removeUnit (u : Fin n)
  | yield
  | addBlockedUnit (u : Fin n)
  | wakeSleepingUnits (now : Nat)
  | addWait (q : WaitId) (u : Fin n)
  | wakeOne (q : WaitId)
  | wakeAll (q : WaitId)
  | wakeMatching (q : WaitId) (maxWake uaddr : Nat)
  | waitRemove (q : WaitId) (u : Fin n)
  | futexWait (uaddr : Nat) (same : Bool) (timeout : Option Nat)
  | futexReturn
  | futexWake (uaddr val : Nat)
  | signalSendUnit (u : Fin n) (sig : Nat)
  | signalSendRealm (rid sig : Nat)

/-- One step; the answer is what the call returns, 0 if it returns nothing. -/
def step {n : Nat} {cfg : Config n} (s : Sched cfg) : Action n → Sched cfg × Int
  | .addUnit u => (s.addUnit u, 0)
  | .removeUnit u => (s.removeUnit u, 0)
  | .yield => (s.yieldCpu, 0)
  | .addBlockedUnit u => (s.addBlockedUnit u, 0)
  | .wakeSleepingUnits now => (s.wakeSleepingUnits now, 0)
  | .addWait q u => (s.addWait q u, 0)
  | .wakeOne q => (s.wakeOne q, 0)
  | .wakeAll q => (s.wakeAll q, 0)
  | .wakeMatching q maxWake uaddr => ((s.wakeMatching q maxWake uaddr).1, (s.wakeMatching q maxWake uaddr).2)
  | .waitRemove q u => ((s.waitRemove q u).1, if (s.waitRemove q u).2 then 1 else 0)
  | .futexWait uaddr same timeout => s.futexWait uaddr same timeout
  | .futexReturn => (s.futexReturn, 0)
  | .futexWake uaddr val => s.futexWake uaddr val
  | .signalSendUnit u sig => (s.signalSendUnit u sig, 0)
  | .signalSendRealm rid sig => (s.signalSendRealm rid sig, 0)

/-- The state after `init_cpu`: nothing is queued, and every unit is new. -/
structure Booted {n : Nat} {cfg : Config n} (s : Sched cfg) : Prop where
  queue : ∀ i, s.queue i = ⟨none, none⟩
  state : ∀ u, (s.unit u).state = .new
  current : s.currentUnit = none
  waits : ∀ q, s.waits q = []

end Vespera.Scheduling
