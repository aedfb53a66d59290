import Vespera.Ipc.Counters
import Vespera.Realm.HandleTable
import Vespera.Scheduling.CpuScheduler
import Vespera.Security.Credentials
import Vespera.Vfs.FileData

/-! # The system calls that take user buffers

`sys_read`, `sys_write`, `sys_getresuid`, `sys_getresgid` and `sys_futex`, with
`resolve_handle`, `VFS::read`, `VFS::write`, the read and write operations of a regular file,
and `is_user_range`. A call is a `MemProg`: it works on the kernel's objects and accesses
memory at the addresses it was given, as the source does through the bare pointers.

A call that waits gives the answer `blocked` once its unit is off the CPU; the loops of the
source then look again, which is a step of its own (`Again`), and `sys_futex` goes on after its
wait, in `futexResume`.

The kernel's own allocations succeed. What a driver, or FAT32, does with a read or a write is its
function in the node. `print_dbc` is declared and has no body: what it sends of a buffer is a
parameter.
-/

namespace Vespera.Sys

open Klib Function Lib Ipc Realms MemProg Scheduling Security Vfs

/-! ## user_copy.cpp -/

abbrev userAddrMax : Nat := 0x00007FFFFFFFFFFF

def isUserRange (addr len : Nat) : Bool :=
  if addr = 0 then false
  else if len = 0 then true
  else if addr > userAddrMax then false
  else if len > userAddrMax - addr then false
  else true

/-! ## The kernel's objects -/

/-- `VfsNodeType`. -/
inductive NodeType where
  | file
  | directory
  | charDevice
  | blockDevice
  | fifo
  | symlink
  | socket
  | otherDevice
deriving DecidableEq, Repr

/-- The `read` operation of a node: none, that of a file system, or a driver's, which answers
an offset and a size with bytes. -/
inductive ReadOp where
  | none
  | file
  | driver (read : Nat → Nat → Except Error (List UInt8))

/-- The `write` operation of a node; a driver's answers an offset and bytes with their number. -/
inductive WriteOp where
  | none
  | file
  | driver (write : Nat → List UInt8 → Except Error Nat)

/-- The fields of `VfsNode` that reads and writes use, with the contents of a regular file and
the read-only flag of its mount. -/
structure VfsNode where
  type : NodeType
  seekable : Bool
  fifoChannel : Option Nat
  read : ReadOp
  write : WriteOp
  readOnly : Bool
  content : List UInt8

/-- `VfsHandle` with its `VfsHandleContext`. -/
structure VfsHandle where
  node : Option Nat
  position : Int
  openFlags : Nat

structure ChannelEndpoint where
  channel : Nat
  isWriter : Bool

structure SocketEndpoint where
  tx : Option Nat
  rx : Option Nat

/-- `SocketHandle`; `connected` is `state == CONNECTED`. -/
structure SocketHandle where
  connected : Bool
  endpoint : Option SocketEndpoint

/-- What the calls work on. A handle's resource is the number of an object of the kind the
handle's type says, `none` for a null pointer. -/
structure Objects {n : Nat} (cfg : Config n) where
  sched : Sched cfg
  handles : Nat → HandleTable (Option Nat)
  cred : Nat → ProcessCredentials
  signalsPending : Nat → Nat
  vfsHandle : Nat → VfsHandle
  node : Nat → VfsNode
  endpoint : Nat → ChannelEndpoint
  channel : Nat → Channel
  socket : Nat → SocketHandle
  eventfd : Nat → Eventfd
  timerfd : Nat → Timerfd
  signalfd : Nat → Signalfd
  uptimeNs : Nat
  serial : List UInt8
  dbc : List UInt8
  printDbc : List UInt8 → List UInt8

/-- What a call returns, or that its unit waits. -/
inductive Answer where
  | ret (v : Int)
  | blocked
deriving DecidableEq, Repr

/-- The call returned an error. -/
def Answer.isError : Answer → Bool
  | .ret v => v < 0
  | .blocked => false

/-- The call returned this error. -/
def Answer.error (e : Error) : Answer := .ret e.toErrno

@[simp] theorem Answer.isError_blocked : Answer.blocked.isError = false := rfl

@[simp] theorem Answer.isError_error {e : Error} : (Answer.error e).isError :=
  decide_eq_true e.toErrno_neg

@[simp] theorem Answer.isError_ret_natCast {k : Nat} : (Answer.ret k).isError = false := by
  simp [Answer.isError]

variable {n : Nat} {cfg : Config n}

namespace Objects

variable (o : Objects cfg)

def getCurrentRealm : Option Nat := o.sched.getCurrentUnit.map cfg.rid

/-- `resolve_handle` with the type mask 0. -/
def resolveHandle (hid caps : UInt64) : Except Error (HandleEntry (Option Nat)) :=
  match o.getCurrentRealm with
  | none => .error .srch
  | some realm =>
    match (o.handles realm).lookup hid with
    | none => .error .badH
    | some he => if caps ≠ 0 ∧ he.capabilities &&& caps = 0 then .error .acces else .ok he

def currentCredentials : Except Error ProcessCredentials :=
  match o.getCurrentRealm with
  | none => .error .srch
  | some realm => .ok (o.cred realm)

/-- A pass found nothing to do: the unit waits in the queue and gives up the CPU, unless the
caller asked not to wait or there is no unit. -/
def waitOn (q : WaitId) (blocking : Bool) : Objects cfg × Answer :=
  match (if blocking then o.sched.getCurrentUnit else none) with
  | none => (o, .error .again)
  | some cur => ({ o with sched := (o.sched.addWait q cur).yieldCpu }, .blocked)

/-- The end of a pass: the answer it gives at once, a wait, or the change it makes. -/
def finish {σ : Type} (q : WaitId) (blocking : Bool) (update : σ → Objects cfg) :
    Pass σ → Objects cfg × Answer
  | .stay r => (o, .ret r)
  | .wait => o.waitOn q blocking
  | .moved s k => (update s, .ret k)

/-- `Channel::send` on a channel. -/
def send (id data len : Nat) (blocking : Bool) : MemProg (Objects cfg × Answer) := do
  let r ← (o.channel id).send data len
  pure (o.finish (.channelWrite id) blocking (fun c =>
    { o with channel := update o.channel id c,
             sched := o.sched.wakeOne (.channelRead id) }) r)

/-- `Channel::recv` on a channel. -/
def recv (id out len : Nat) (blocking : Bool) : MemProg (Objects cfg × Answer) := do
  let r ← (o.channel id).recv out len
  pure (o.finish (.channelRead id) blocking (fun c =>
    { o with channel := update o.channel id c,
             sched := o.sched.wakeOne (.channelWrite id) }) r)

/-- The loops of `sys_read` and `sys_write` on a pipe: `-EAGAIN` gives up the CPU and tries
again. -/
def retry (r : Objects cfg × Answer) : Objects cfg × Answer :=
  if r.2 = .error .again then ({ r.1 with sched := r.1.sched.yieldCpu }, .blocked) else r

/-! ## vfs.cpp -/

/-- The flag `O_NONBLOCK`. -/
def oNonblock : Nat := 0x0800

/-- `VFS::read`. -/
def vfsRead (node : Option Nat) (offset size buffer flags : Nat) : MemProg (Objects cfg × Answer) :=
  match node with
  | none => pure (o, .error .inval)
  | some id =>
    let nd := o.node id
    if nd.type = .fifo then
      match nd.fifoChannel with
      | none => pure (o, .error .io)
      | some ch => o.recv ch buffer size (flags &&& oNonblock = 0)
    else match nd.read with
      | .none => pure (o, .error .noSys)
      | .file =>
        if nd.type ≠ .file then pure (o, .error .isDir)
        else if offset ≥ nd.content.length then pure (o, .ret 0)
        else do
          let bs := fileBytes nd.content offset size
          storeBytes buffer bs
          pure (o, .ret bs.length)
      | .driver read =>
        match read offset size with
        | .error e => pure (o, .error e)
        | .ok bs => do
          storeBytes buffer (bs.take size)
          pure (o, .ret (bs.take size).length)

/-- `VFS::write`. -/
def vfsWrite (node : Option Nat) (offset size buffer flags : Nat) :
    MemProg (Objects cfg × Answer) :=
  match node with
  | none => pure (o, .error .inval)
  | some id =>
    let nd := o.node id
    if nd.type = .fifo then
      match nd.fifoChannel with
      | none => pure (o, .error .io)
      | some ch => o.send ch buffer size (flags &&& oNonblock = 0)
    else match nd.write with
      | .none => pure (o, .error .noSys)
      | .file =>
        if nd.readOnly then pure (o, .error .roFs)
        else if nd.type ≠ .file then pure (o, .error .isDir)
        else do
          let bs ← loadBytes buffer size
          let nd := { nd with content := writeFile nd.content offset bs }
          pure ({ o with node := update o.node id nd }, .ret size)
      | .driver write =>
        if nd.readOnly then pure (o, .error .roFs)
        else do
          let bs ← loadBytes buffer size
          match write offset bs with
          | .error e => pure (o, .error e)
          | .ok k => pure (o, .ret k)

/-- `VFS::is_seekable` decides the offset: the position, or -1. -/
def offsetOf (vh : VfsHandle) : Int :=
  if vh.node.any fun id => (o.node id).seekable then vh.position else -1

/-- `vh->context->position += bytes`, if bytes were moved and the node is seekable. -/
def advance (off : Int) (vh : Nat) (r : Objects cfg × Answer) : Objects cfg × Answer :=
  match r.2 with
  | .ret bytes =>
    if bytes > 0 ∧ off ≥ 0 then
      let h := r.1.vfsHandle vh
      ({ r.1 with vfsHandle := update r.1.vfsHandle vh
                    { h with position := h.position + bytes } }, r.2)
    else r
  | .blocked => r

/-! ## sys_read.cpp -/

variable (id buf count : Nat)

/-- `case HANDLE_TYPE_DEVICE`, `HANDLE_TYPE_FIFO` and `HANDLE_TYPE_FILE` of `sys_read`. -/
def readFile : MemProg (Objects cfg × Answer) := do
  let vh := o.vfsHandle id
  let off := o.offsetOf vh
  let r ← o.vfsRead vh.node off.toNat count buf vh.openFlags
  pure (advance off id r)

/-- `case HANDLE_TYPE_PIPE` of `sys_read`. -/
def readPipe : MemProg (Objects cfg × Answer) :=
  let ep := o.endpoint id
  if ep.isWriter then pure (o, .error .badH)
  else do
    let r ← o.recv ep.channel buf count false
    pure (retry r)

/-- `case HANDLE_TYPE_SOCKET` of `sys_read`, with `SocketEndpoint::recv`. -/
def readSocket : MemProg (Objects cfg × Answer) :=
  let sh := o.socket id
  match sh.connected, sh.endpoint with
  | true, some ep =>
    match ep.rx with
    | none => pure (o, .error .badH)
    | some ch => o.recv ch buf count true
  | _, _ => pure (o, .error .notConn)

/-- `Timerfd::read`. -/
def readTimerfd : MemProg (Objects cfg × Answer) := do
  let r ← (o.timerfd id).read buf count
  pure (o.finish (.timerfd id) (!(o.timerfd id).nonblock) (fun t =>
    { o with timerfd := update o.timerfd id t }) r)

/-- `Signalfd::read`. -/
def readSignalfd : MemProg (Objects cfg × Answer) := do
  let sfd := o.signalfd id
  let r ← sfd.read (o.signalsPending sfd.owner) buf count
  pure (o.finish (.signalfd id) (!sfd.nonblock) (fun pending =>
    { o with signalsPending := update o.signalsPending sfd.owner pending }) r)

/-- The state after an eventfd's counter was changed. -/
def setEventfd (id : Nat) (e : Eventfd) : Objects cfg :=
  { o with eventfd := update o.eventfd id e, sched := o.sched.wakeAll (.eventfd id) }

/-- `Eventfd::read`. -/
def readEventfd : MemProg (Objects cfg × Answer) := do
  let r ← (o.eventfd id).read buf count
  pure (o.finish (.eventfd id) (!(o.eventfd id).nonblock) (o.setEventfd id) r)

/-- The switch of `sys_read`. -/
def readResource (type : HandleType) (resource : Option Nat) (buf count : Nat) :
    MemProg (Objects cfg × Answer) :=
  match type, resource with
  | .device, some id | .fifo, some id | .file, some id => o.readFile id buf count
  | .pipe, some id => o.readPipe id buf count
  | .pipe, none => pure (o, .error .inval)
  | .socket, some id => o.readSocket id buf count
  | .timerfd, some id => o.readTimerfd id buf count
  | .signalfd, some id => o.readSignalfd id buf count
  | .eventfd, some id => o.readEventfd id buf count
  | _, _ => pure (o, .error .badH)

def sysRead (hid : UInt64) (buf count : Nat) : MemProg (Objects cfg × Answer) :=
  if buf = 0 ∨ count = 0 then pure (o, .error .inval)
  else match o.resolveHandle hid capRead with
    | .error e => pure (o, .error e)
    | .ok rh => o.readResource rh.type rh.resource buf count

/-! ## sys_write.cpp -/

/-- `serial::write`: a carriage return goes before every line feed. -/
def serialBytes (bs : List UInt8) : List UInt8 :=
  bs.flatMap fun b => if b = 10 then [13, 10] else [b]

/-- `case HANDLE_TYPE_DEVICE`, `HANDLE_TYPE_FIFO` and `HANDLE_TYPE_FILE` of `sys_write`. -/
def writeFileHandle : MemProg (Objects cfg × Answer) := do
  let vh := o.vfsHandle id
  let off := o.offsetOf vh
  let r ← o.vfsWrite vh.node off.toNat count buf vh.openFlags
  pure (advance off id r)

/-- `case HANDLE_TYPE_PIPE` of `sys_write`. -/
def writePipe : MemProg (Objects cfg × Answer) :=
  let ep := o.endpoint id
  if ¬ ep.isWriter then pure (o, .error .badH)
  else do
    let r ← o.send ep.channel buf count false
    pure (retry r)

/-- `case HANDLE_TYPE_SOCKET` of `sys_write`, with `SocketEndpoint::send`. -/
def writeSocket : MemProg (Objects cfg × Answer) :=
  let sh := o.socket id
  match sh.connected, sh.endpoint with
  | true, some ep =>
    match ep.tx with
    | none => pure (o, .error .badH)
    | some ch => o.send ch buf count true
  | _, _ => pure (o, .error .notConn)

/-- `Eventfd::write`. -/
def writeEventfd : MemProg (Objects cfg × Answer) := do
  let r ← (o.eventfd id).write buf count
  pure (o.finish (.eventfd id) (!(o.eventfd id).nonblock) (o.setEventfd id) r)

/-- The switch of `sys_write`. -/
def writeResource (type : HandleType) (resource : Option Nat) (buf count : Nat) :
    MemProg (Objects cfg × Answer) :=
  match type, resource with
  | .device, some id | .fifo, some id | .file, some id => o.writeFileHandle id buf count
  | .pipe, some id => o.writePipe id buf count
  | .pipe, none => pure (o, .error .inval)
  | .socket, some id => o.writeSocket id buf count
  | .timerfd, _ | .signalfd, _ => pure (o, .error .inval)
  | .eventfd, some id => o.writeEventfd id buf count
  | _, _ => pure (o, .error .badH)

/-- `sys_write`. The buffer goes to the serial port and to the debug port before the handle
is looked at. -/
def sysWrite (hid : UInt64) (buf count : Nat) : MemProg (Objects cfg × Answer) :=
  if buf = 0 ∨ count = 0 then pure (o, .ret 0)
  else do
    let bs ← loadBytes buf count
    let o := { o with serial := o.serial ++ serialBytes bs }
    let bs ← loadBytes buf count
    let o := { o with dbc := o.dbc ++ o.printDbc bs }
    match o.resolveHandle hid capWrite with
    | .error e => pure (o, .error e)
    | .ok rh => o.writeResource rh.type rh.resource buf count

/-! ## sys_uid.cpp and sys_futex.cpp -/

/-- `sys_getresuid` and `sys_getresgid`. -/
def sysGetres (kind : IdKind) (r e s : Nat) : MemProg (Objects cfg × Answer) :=
  if r = 0 ∨ e = 0 ∨ s = 0 then pure (o, .error .inval)
  else match o.currentCredentials with
    | .error err => pure (o, .error err)
    | .ok cred => do
      storeBytes r (toBytes 4 (cred.real kind).toNat)
      storeBytes e (toBytes 4 (cred.effective kind).toNat)
      storeBytes s (toBytes 4 (cred.saved kind).toNat)
      pure (o, .ret 0)

def futexWait : Nat := 0
def futexWake : Nat := 1
def futexWakeAll : Nat := 2

/-- The deadline that `sys_futex` reads from a `timespec_t`. -/
def timeoutNs (abstime : Bool) (ts : List UInt8) : Nat :=
  ((if abstime then 0 else o.uptimeNs) + ofBytes (ts.take 8) * 1000000000 + ofBytes (ts.drop 8)) %
    2 ^ 64

/-- The unit is queued in the bucket, and gives up the CPU. -/
def futexBlock (uaddr : Nat) (timeout : Option Nat) : Objects cfg × Answer :=
  ({ o with sched := (o.sched.futexWait uaddr true timeout).1.yieldCpu }, .blocked)

/-- `sys_futex`, up to the yield of `FUTEX_WAIT`. -/
def sysFutex (uaddr arg1 arg2 ts : Nat) : MemProg (Objects cfg × Answer) :=
  let op := arg1 % 256
  let val := arg2 % 2 ^ 32
  if uaddr = 0 ∨ uaddr % 4 ≠ 0 then pure (o, .error .inval)
  else if op = futexWait then do
    let current ← loadBytes uaddr 4
    if ofBytes current ≠ val then pure (o, .error .again)
    else if ts ≠ 0 then do
      let bytes ← loadBytes ts 16
      pure (o.futexBlock uaddr (some (o.timeoutNs (arg1.testBit 8) bytes)))
    else pure (o.futexBlock uaddr none)
  else if op = futexWake then
    let r := o.sched.futexWake uaddr val
    pure ({ o with sched := r.1 }, .ret r.2)
  else if op = futexWakeAll then
    let r := o.sched.futexWake uaddr (2 ^ 32 - 1)
    pure ({ o with sched := r.1 }, .ret r.2)
  else pure (o, .error .noSys)

/-- The rest of `FUTEX_WAIT`, after the yield. -/
def futexResume (ts : Nat) : Objects cfg × Answer :=
  let timedOut := ts ≠ 0 ∧ o.sched.getCurrentUnit.any fun u => (o.sched.unit u).wakeupNs ≤ o.uptimeNs
  ({ o with sched := o.sched.futexReturn }, if timedOut then .error .timedOut else .ret 0)

end Objects

/-! ## Steps of the kernel -/

/-- The calls. -/
inductive Call where
  | read (hid buf count : UInt64)
  | write (hid buf count : UInt64)
  | getresuid (ruid euid suid : UInt64)
  | getresgid (rgid egid sgid : UInt64)
  | futex (uaddr op val ts : UInt64)

/-- What a call does. -/
def Call.prog (o : Objects cfg) : Call → MemProg (Objects cfg × Answer)
  | .read hid buf count => o.sysRead hid buf.toNat count.toNat
  | .write hid buf count => o.sysWrite hid buf.toNat count.toNat
  | .getresuid r e s => o.sysGetres .user r.toNat e.toNat s.toNat
  | .getresgid r e s => o.sysGetres .group r.toNat e.toNat s.toNat
  | .futex uaddr op val ts => o.sysFutex uaddr.toNat op.toNat val.toNat ts.toNat

/-- Where a call goes on after a wait: its handle is resolved, its value for an eventfd read. -/
inductive Again where
  | read (type : HandleType) (resource : Option Nat) (buf count : UInt64)
  | write (type : HandleType) (resource : Option Nat) (buf count : UInt64)
  | add (id value : Nat)

def Again.prog (o : Objects cfg) : Again → MemProg (Objects cfg × Answer)
  | .read type resource buf count => o.readResource type resource buf.toNat count.toNat
  | .write type resource buf count => o.writeResource type resource buf.toNat count.toNat
  | .add id value => pure (o.finish (.eventfd id) (!(o.eventfd id).nonblock) (o.setEventfd id)
      ((o.eventfd id).add value))

/-- The kernel's objects, the user half of every realm's address space, and the kernel half,
which all realms share. -/
structure Kernel {n : Nat} (cfg : Config n) where
  objects : Objects cfg
  user : Nat → ByteMem
  kern : ByteMem

namespace Kernel

/-- The realm whose address space is active. Without a unit no call is made. -/
def space (k : Kernel cfg) : Nat := k.objects.getCurrentRealm.getD 0

/-- The memory as the running unit's calls see it. -/
def view (k : Kernel cfg) : ByteMem := fun a =>
  if a ≤ userAddrMax then k.user k.space a else k.kern a

/-- The kernel after the memory of the active address space has become `m`. -/
def setView (k : Kernel cfg) (m : ByteMem) : Kernel cfg :=
  { k with
    user := update k.user k.space fun a =>
      if a ≤ userAddrMax then m a else k.user k.space a
    kern := fun a => if a ≤ userAddrMax then k.kern a else m a }

/-- Kernel code runs in the address space of the running unit. -/
def run (k : Kernel cfg) (p : MemProg (Objects cfg × Answer)) : Kernel cfg × Answer :=
  let r := p.result k.view
  ({ k.setView (p.memory k.view) with objects := r.1 }, r.2)

/-- The running unit makes a call. -/
def call (k : Kernel cfg) (c : Call) : Kernel cfg × Answer := k.run (c.prog k.objects)

end Kernel

/-- The steps: a call, one that goes on after a wait, a store by the running unit, the clock, and
what the scheduler does. -/
inductive Action (n : Nat) where
  | call (c : Call)
  | again (a : Again)
  | futexResume (ts : UInt64)
  | userStore (a : Nat) (b : UInt8)
  | clock (now : Nat)
  | sched (a : Scheduling.Action n)

/-- One step, and the answer. A store outside the user half faults and changes nothing. -/
def step (k : Kernel cfg) : Action n → Kernel cfg × Answer
  | .call c => k.call c
  | .again a => k.run (a.prog k.objects)
  | .futexResume ts =>
    let r := k.objects.futexResume ts.toNat
    ({ k with objects := r.1 }, r.2)
  | .userStore a b =>
    if a ≤ userAddrMax then (k.setView (update k.view a b), .ret 0) else (k, .ret 0)
  | .clock now => ({ k with objects := { k.objects with uptimeNs := now } }, .ret 0)
  | .sched a =>
    let r := Scheduling.step k.objects.sched a
    ({ k with objects := { k.objects with sched := r.1 } }, .ret r.2)

end Vespera.Sys
