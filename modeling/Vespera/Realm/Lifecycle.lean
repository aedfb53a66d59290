import Vespera.Lib.IntrusiveQueue
import Vespera.Realm.SeqCounter

/-! # The life of realms and units

How realms and their units come and go: `UnitManager::create`, `complete_termination` and `join`
(`kernel/units/unit_manager.cpp`), the exits and kills of `kernel/scheduling/termination.cpp`, the
reapers, `ExitCodeTable`, and `kernel::realm::wait`, over the realm table.

* A unit names its realm by a pointer to the realm's slot (`parent`), and a realm lists its units
  (`unitList`; `unit_count` is its length, the two are changed together everywhere).
* The queue of each CPU's reaper is an intrusive one, linked through the units (`next`).
* `complete_termination` holds the lock of `UnitManager` while it calls `RealmManager::destroy`
  and `mark_teardown_complete`, one after the other; other CPUs go on in between (`midway`), except
  with what needs that lock.
* `spawn` creates a realm, and later its first unit or nothing (`starting`).

Four fields are history and are read by no function: the ids of the units that were registered
(`born`) and handed to `complete_termination` (`handed`), the status that each realm's last exit or
kill gave (`status`), and the ids of the realms whose exit a wait has consumed (`consumed`).

A unit is `ready` while it runs or could run. The links of the ready queues are not modelled.
-/

namespace Vespera.Realms

open Klib Function Lib RealmManager

abbrev maxUnits : Nat := 256

instance : NeZero maxUnits := ⟨by decide⟩

/-- `ExitCodeTable::MAX`. -/
abbrev maxExitRecords : Nat := 64

/-- `UnitState`. -/
inductive Phase where
  | ready | blocked | terminated | zombie
deriving Repr, DecidableEq

/-- `struct Unit`. -/
structure LifeUnit where
  active : Bool
  id : Nat
  rid : Nat
  parent : Option (Fin maxRealms)
  cpuId : Nat
  phase : Phase
  exitCode : Int
  joinerId : Nat
  joinedNoWait : Bool
  waitQueue : List (Fin maxUnits)
deriving Repr, DecidableEq

/-- A unit slot after `memset`. -/
def LifeUnit.zero : LifeUnit := ⟨false, 0, 0, none, 0, .ready, 0, 0, false, []⟩

/-- Where a reaper is inside `complete_termination`. -/
inductive Midway where
  | destroying (rid : Nat) (exitCode : Int)
  | marking (rid : Nat)
deriving Repr, DecidableEq

/-- The realm it is about. -/
def Midway.rid : Midway → Nat
  | .destroying rid _ => rid
  | .marking rid => rid

/-- Realms, units, reapers and exit codes. -/
structure Life (ρ : Type) where
  rm : RealmManager ρ
  unitList : Fin maxRealms → List (Fin maxUnits)
  waitQueue : Fin maxRealms → List (Fin maxUnits)
  units : Fin maxUnits → LifeUnit
  nextUnitId : Nat
  next : Fin maxUnits → Option (Fin maxUnits)
  reapers : Nat → IntrusiveQueue (Fin maxUnits)
  records : Fin maxExitRecords → Option (Nat × Int)
  midway : Option Midway
  starting : List (Fin maxRealms × Nat)
  born : List Nat
  handed : List Nat
  status : Nat → Option Int
  consumed : List Nat

/-- What a call returns, as far as it matters here. -/
inductive LifeAnswer where
  | done
  | blocked
  | failed (e : Error)
  | waited (ready : Bool) (exitCode : Int)
  | joined (exitCode : Int)
deriving Repr, DecidableEq

namespace Life

variable {ρ : Type}

/-- Nothing has been created. -/
def boot (ρ : Type) : Life ρ where
  rm := initialized ρ
  unitList := fun _ => []
  waitQueue := fun _ => []
  units := fun _ => .zero
  nextUnitId := 1
  next := fun _ => none
  reapers := fun _ => ⟨none, none⟩
  records := fun _ => none
  midway := none
  starting := []
  born := []
  handed := []
  status := fun _ => none
  consumed := []

/-! ## Units -/

variable (st : Life ρ)

/-- Change one unit. -/
def setUnit (u : Fin maxUnits) (f : LifeUnit → LifeUnit) : Life ρ :=
  { st with units := update st.units u (f (st.units u)) }

/-- `UnitManager::create` for the realm with an id, and the slot of the new unit. `stackOk` says
whether its stacks can be allocated. -/
def createUnit (rid cpuId : Nat) (stackOk : Bool) : Life ρ × Option (Fin maxUnits) :=
  match st.rm.findId rid with
  | none => (st, none)
  | some i =>
    match (List.finRange maxUnits).find? fun u => !(st.units u).active with
    -- unit pool exhausted
    | none => (st, none)
    | some u =>
      let unit := { LifeUnit.zero with
        active := stackOk, id := st.nextUnitId, rid := rid, parent := some i, cpuId := cpuId }
      let st := { st with
        units := update st.units u unit
        next := update st.next u none
        nextUnitId := st.nextUnitId + 1 }
      if stackOk then
        ({ st with
          unitList := update st.unitList i (u :: st.unitList i)
          born := st.born ++ [unit.id] }, some u)
      else (st, none)

def finalizeSlot (u : Fin maxUnits) : Life ρ :=
  { st with
    units := update st.units u .zero
    next := update st.next u none }

def enqueue (cpu : Nat) (u : Fin maxUnits) : Life ρ :=
  let r := IntrusiveQueue.push st.next (st.reapers cpu) u
  { st with next := r.1, reapers := update st.reapers cpu r.2 }

/-- One entry of `WaitQueue::wake_all`. -/
def wake (u : Fin maxUnits) : Life ρ :=
  st.setUnit u fun unit => { unit with phase := .ready }

/-! ## Exit codes -/

/-- `ExitCodeTable::store`: without a free record the code is dropped. -/
def store (rid : Nat) (code : Int) : Life ρ :=
  match (List.finRange maxExitRecords).find? fun k => (st.records k).isNone with
  | none => st
  | some k => { st with records := update st.records k (some (rid, code)) }

/-- The record that `ExitCodeTable::consume` finds. -/
def recordOf (rid : Nat) : Option (Fin maxExitRecords) :=
  (List.finRange maxExitRecords).find? fun k => (st.records k).any fun r => r.1 == rid

/-- `ExitCodeTable::consume`, with the code left as it was if there is none. -/
def consume (rid : Nat) (code : Int) : Life ρ × Int :=
  match st.recordOf rid with
  | none => (st, code)
  | some k =>
    match st.records k with
    | none => (st, code)
    | some r => ({ st with records := update st.records k none }, r.2)

/-! ## Exits -/

/-- The wait queue of a realm: `WaitQueue::wake_all`. -/
def wakeAll (i : Fin maxRealms) : Life ρ :=
  { (st.waitQueue i).foldl wake st with waitQueue := update st.waitQueue i [] }

def finalizeRealmExit (i : Fin maxRealms) (code : Int) : Life ρ :=
  let st := st.store (st.rm.realms i).id code
  { st with rm := st.rm.setRealm i { st.rm.realms i with exitCode := code, exited := true } }

def finishTerminateUnit (code : Int) (st : Life ρ) (u : Fin maxUnits) : Life ρ :=
  (st.setUnit u fun unit => { unit with exitCode := code, phase := .terminated }).enqueue
    (st.units u).cpuId u

/-- The history of exits. -/
def giveStatus (i : Fin maxRealms) (code : Int) : Life ρ :=
  { st with status := update st.status (st.rm.realms i).id (some code) }

/-- `exit_current_realm`, and the two ways through `kill_realm`, which differ in the order of the
first two steps: all units of the realm end with `unitCode`, the realm with `code`. -/
def endRealm (i : Fin maxRealms) (code unitCode : Int) : Life ρ :=
  let st := (st.giveStatus i code).finalizeRealmExit i code
  let st := (st.unitList i).foldl (finishTerminateUnit unitCode) st
  st.wakeAll i

/-- `exit_current`, on the CPU `cpu`. Whether the unit is the last one is read off `unit_count`,
from which the reaper has yet to subtract the units that ended before. -/
def exitCurrent (u : Fin maxUnits) (cpu : Nat) (code : Int) : Life ρ :=
  let st := match (st.units u).parent with
    | none => st
    | some i =>
      let st := st.giveStatus i code
      if (st.unitList i).length = 1 then (st.finalizeRealmExit i code).wakeAll i else st
  (st.setUnit u fun unit => { unit with exitCode := code, phase := .terminated }).enqueue cpu u

/-! ## The reaper -/

/-- What `complete_termination` does to the slot of a unit: it is free if the unit was joined, and
otherwise holds a zombie for whoever joins it. -/
def retire (u : Fin maxUnits) : Life ρ :=
  if (st.units u).joinedNoWait then st.finalizeSlot u
  else
    ((st.units u).waitQueue.foldl wake st).setUnit u fun unit =>
      { unit with phase := .zombie, waitQueue := [] }

/-- The part of `complete_termination` that is about the unit and the list of its realm. -/
def completeTermination (u : Fin maxUnits) : Life ρ :=
  let parent := (st.units u).parent
  let st := match parent with
    | none => st
    | some i => { st with unitList := update st.unitList i ((st.unitList i).erase u) }
  let st := st.retire u
  match parent with
  | none => st
  | some i =>
    if st.unitList i = [] then
      -- the exit code is read from the slot, which may have been cleared just now
      { st with midway := some (.destroying (st.rm.realms i).id (st.units u).exitCode) }
    else st

/-- One turn of the loop of `Reaper::reap` on the CPU `cpu`. -/
def reaperStep (cpu : Nat) : Life ρ :=
  match IntrusiveQueue.pop st.next (st.reapers cpu) with
  | (none, _, _) => st
  | (some u, next, q) =>
    { st with
      next := next
      reapers := update st.reapers cpu q
      handed := st.handed ++ [(st.units u).id] }.completeTermination u

/-- The call of `RealmManager::destroy` in `complete_termination`. The units of the realm, which
`destroy` goes through, are none: nobody could add one since their number was seen to be zero.
The exit of init stops the system. -/
def destroyRealm : Life ρ :=
  match st.midway with
  | some (.destroying rid code) =>
    if rid = initRealmId then st
    else { st with rm := st.rm.destroy rid code, midway := some (.marking rid) }
  | _ => st

/-- The call of `RealmManager::mark_teardown_complete`. -/
def markRealm : Life ρ :=
  match st.midway with
  | some (.marking rid) => { st with rm := st.rm.markTeardownComplete rid, midway := none }
  | _ => st

/-! ## Waiting and joining -/

/-- The end of `kernel::realm::wait` for a realm that has exited. -/
def collect (rid : Nat) : Life ρ × LifeAnswer :=
  let r := st.consume rid 0
  ({ r.1 with rm := r.1.rm.reap rid, consumed := rid :: r.1.consumed }, .waited true r.2)

/-- `kernel::realm::wait` up to its loop. -/
def wait (u : Fin maxUnits) (rid : Nat) (nohang : Bool) : Life ρ × LifeAnswer :=
  match st.rm.findId rid with
  | none => (st, .failed .child)
  | some i =>
    if (st.rm.realms i).exited then st.collect rid
    else if nohang then (st, .waited false 0)
    else
      let st := st.setUnit u fun unit => { unit with phase := .blocked }
      ({ st with
        rm := st.rm.setRealm i { st.rm.realms i with waiterPresent := true }
        waitQueue := update st.waitQueue i (st.waitQueue i ++ [u]) }, .blocked)

/-- One turn of the loop of `wait`, which the unit takes whenever it runs again. -/
def waitAgain (rid : Nat) : Life ρ × LifeAnswer :=
  match st.rm.findId rid with
  | none => (st, .failed .child)
  | some i => if (st.rm.realms i).exited then st.collect rid else (st, .blocked)

/-- The unit with an id. -/
def findUnit (uid : Nat) : Option (Fin maxUnits) :=
  (List.finRange maxUnits).find? fun u => (st.units u).active && (st.units u).id == uid

/-- `UnitManager::join` up to its loop. -/
def join (u : Fin maxUnits) (uid : Nat) : Life ρ × LifeAnswer :=
  match st.findUnit uid with
  | none => (st, .failed .srch)
  | some target =>
    if (st.units target).joinerId ≠ 0 then (st, .failed .inval)
    else
      match (st.units target).phase with
      | .zombie => (st.finalizeSlot target, .joined (st.units target).exitCode)
      | .terminated =>
        (st.setUnit target fun unit =>
          { unit with joinerId := (st.units u).id, joinedNoWait := true },
          .joined (st.units target).exitCode)
      | .ready | .blocked =>
        let st := st.setUnit target fun unit =>
          { unit with joinerId := (st.units u).id, waitQueue := unit.waitQueue ++ [u] }
        (st.setUnit u fun unit => { unit with phase := .blocked }, .blocked)

/-- One turn of the loop of `join`. -/
def joinAgain (uid : Nat) : Life ρ × LifeAnswer :=
  match st.findUnit uid with
  | none => (st, .blocked)
  | some target =>
    if (st.units target).phase = .zombie then
      (st.finalizeSlot target, .joined (st.units target).exitCode)
    else (st, .blocked)

/-! ## Steps -/

end Life

/-- What can happen. The calls of a unit name its slot; a spawner names the slot and the id of the
realm that it has created. -/
inductive LifeAct where
  | createRealm (parent : Nat) (cfg : RealmConfig) (allocs : CreateAllocs)
  | firstUnit (i : Fin maxRealms) (rid cpuId : Nat) (stackOk : Bool)
  | abort (i : Fin maxRealms) (rid : Nat)
  | unitSpawn (u : Fin maxUnits) (cpuId : Nat) (stackOk : Bool)
  | exitCurrent (u : Fin maxUnits) (cpu : Nat) (code : Int)
  | exitRealm (u : Fin maxUnits) (code : Int)
  | kill (rid sig : Nat)
  | reaper (cpu : Nat)
  | destroyRealm
  | markRealm
  | wait (u : Fin maxUnits) (rid : Nat) (nohang : Bool)
  | waitAgain (u : Fin maxUnits) (rid : Nat)
  | join (u : Fin maxUnits) (uid : Nat)
  | joinAgain (u : Fin maxUnits) (uid : Nat)

namespace Life

variable {ρ : Type}

/-- A user realm that `create` has memory for. -/
def createUser (parent : Nat) : LifeAct :=
  .createRealm parent { name := none, capabilities := 0, isUser := true } ⟨true, true, true⟩

variable (st : Life ρ)

/-- The unit may be executing: it is ready, or it was terminated by another CPU and has not
noticed. -/
def mayRun (u : Fin maxUnits) : Bool :=
  (st.units u).active && ((st.units u).phase == .ready || (st.units u).phase == .terminated)

/-- `create` empties the list of units of the slot it takes. -/
def emptied : Fin maxRealms → List (Fin maxUnits) :=
  match st.rm.findSlot (!·.active) with
  | some i => update st.unitList i []
  | none => st.unitList

/-- One step. A call that needs the lock of `UnitManager` waits while a reaper has it. -/
def lifeStep : LifeAct → Life ρ × LifeAnswer
  | .createRealm parent cfg allocs =>
    let r := st.rm.create cfg allocs
    let st := { st with rm := r.1, unitList := st.emptied }
    match r.2 with
    | none => (st, .failed .noMem)
    | some i =>
      ({ st with
        rm := st.rm.setRealm i { st.rm.realms i with parentId := parent }
        starting := (i, (st.rm.realms i).id) :: st.starting }, .done)
  | .firstUnit i rid cpuId stackOk =>
    if st.midway.isSome || !st.starting.contains (i, rid) then (st, .blocked)
    else
      match st.createUnit (st.rm.realms i).id cpuId stackOk with
      | (st, none) => (st, .failed .fault)
      | (st, some _) => ({ st with starting := st.starting.erase (i, rid) }, .done)
  | .abort i rid =>
    if !st.starting.contains (i, rid) then (st, .blocked)
    else
      ({ st with
        rm := st.rm.abort (st.rm.realms i).id
        starting := st.starting.erase (i, rid) }, .done)
  | .unitSpawn u cpuId stackOk =>
    if st.midway.isSome || !st.mayRun u then (st, .blocked)
    else
      match st.createUnit (st.units u).rid cpuId stackOk with
      | (st, none) => (st, .failed .noMem)
      | (st, some _) => (st, .done)
  | .exitCurrent u cpu code =>
    if !st.mayRun u then (st, .blocked) else (st.exitCurrent u cpu code, .done)
  | .exitRealm u code =>
    if !st.mayRun u then (st, .blocked)
    else
      match (st.units u).parent with
      | none => (st, .failed .srch)
      | some i => (st.endRealm i code code, .done)
  | .kill rid sig =>
    match st.rm.findId rid with
    | none => (st, .failed .srch)
    | some i => (st.endRealm i ((sig % 128 : Nat) : Int) (-(sig : Int)), .done)
  | .reaper cpu => if st.midway.isSome then (st, .blocked) else (st.reaperStep cpu, .done)
  | .destroyRealm => (st.destroyRealm, .done)
  | .markRealm => (st.markRealm, .done)
  | .wait u rid nohang => if !st.mayRun u then (st, .blocked) else st.wait u rid nohang
  | .waitAgain u rid => if !st.mayRun u then (st, .blocked) else st.waitAgain rid
  | .join u uid =>
    if st.midway.isSome || !st.mayRun u then (st, .blocked) else st.join u uid
  | .joinAgain u uid =>
    if st.midway.isSome || !st.mayRun u then (st, .blocked) else st.joinAgain uid

end Life

end Vespera.Realms
