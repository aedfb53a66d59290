import Mathlib.Logic.Function.Basic
import Vespera.Ipc.ChannelQueue
import Vespera.Realm.HandleTransfer

/-! # Connected sockets

`SocketEndpoint::send`, `sendmsg` and `recvmsg` of `kernel/ipc/socket.cpp` on any number of
connections, called by any number of units of any realms.

A connection has a channel for each direction; `(c, b)` is the end `b` of the connection `c` and
also the direction in which it writes. A call takes several steps: the channel is locked for one
pass of `Channel::send` or `Channel::recv` at a time, and other calls may run before the next.
`Phase` says where a unit is in its call, `advance` takes it on to the end of its next channel
access or handle transfer. A unit that has to wait stays where it is and tries again.

What a call reads from user memory is in its arguments: the bytes of each `iovec`, and the memory
from `msg_control` on. What `recvmsg` writes to user memory is in its result. The callbacks of
a handle whose last reference goes away are not run.
-/

namespace Vespera.Ipc

open Klib Lib Realms

/-! ## Frames -/

def sendmsgFrameMagic : Nat := 0x53434D31

/-- The length of the array `rights`. -/
abbrev maxRights : Nat := 64

def eproto : Int := -71

def emsgsize : Int := -90

/-- `static_cast<isize>`. -/
def isize (n : Nat) : Int := if n < 2 ^ 63 then n else n - 2 ^ 64

structure FrameRight where
  srcRealm : UInt64
  srcHid : UInt64
deriving DecidableEq, Repr

/-- The bytes of a right. -/
def FrameRight.bytes (r : FrameRight) : List UInt8 :=
  toBytes 8 r.srcRealm.toNat ++ toBytes 8 r.srcHid.toNat

/-- An array of `n` rights. -/
def rightsOfBytes : Nat → List UInt8 → List FrameRight
  | 0, _ => []
  | n + 1, bs =>
    ⟨.ofNat (ofBytes (bs.take 8)), .ofNat (ofBytes ((bs.drop 8).take 8))⟩ ::
      rightsOfBytes n (bs.drop 16)

/-- What `sendmsg` puts before the payload. -/
def frameHeader (rights : List FrameRight) (payloadLen : Nat) : List UInt8 :=
  toBytes 4 sendmsgFrameMagic ++ toBytes 4 rights.length ++ rights.flatMap FrameRight.bytes ++
    toBytes 4 payloadLen

/-! ## Control messages -/

def cmsgAlign (n : Nat) : Nat := (n + 7) / 8 * 8

/-- `sizeof(cmsghdr)`. -/
abbrev cmsghdrSize : Nat := 12

/-- What the walk over `msg_control` comes upon: a handle in `SCM_RIGHTS` data, a header that is
too short, or a header of length 0 that it skips for ever. -/
inductive CmsgItem where
  | right (hid : UInt64)
  | short
  | endless
deriving DecidableEq, Repr

/-- A little-endian number of `n` bytes in the memory behind `msg_control`. -/
def controlWord (control : Nat → UInt8) (n off : Nat) : Nat :=
  ofBytes ((List.range n).map fun i => control (off + i))

/-- The loop over `CMSG_FIRSTHDR` and `CMSG_NXTHDR` from the header at `off` on. -/
def cmsgItemsFrom (control : Nat → UInt8) (controllen : Nat) : Nat → Nat → List CmsgItem
  | 0, _ => []
  | fuel + 1, off =>
    let cmsgLen := controlWord control 4 off
    let next := off + cmsgAlign cmsgLen
    let rest := if next + cmsghdrSize > controllen then []
      else cmsgItemsFrom control controllen fuel next
    if controlWord control 4 (off + 4) ≠ 1 ∨ controlWord control 4 (off + 8) ≠ 1 then
      -- not `SOL_SOCKET` and `SCM_RIGHTS`
      if cmsgAlign cmsgLen = 0 ∧ off + cmsghdrSize ≤ controllen then [.endless] else rest
    else if cmsgLen < cmsgAlign cmsghdrSize then [.short]
    else
      ((List.range ((cmsgLen - cmsgAlign cmsghdrSize) / 8)).map fun i =>
        .right (.ofNat (controlWord control 8 (off + cmsgAlign cmsghdrSize + 8 * i)))) ++ rest

/-- `msghdr` as `sendmsg` reads it. -/
structure OutMsg where
  iov : List (List UInt8)
  control : Option (Nat → UInt8)
  controllen : Nat

/-- The control messages of a message. Each header is at least 8 bytes behind the one before. -/
def OutMsg.items (msg : OutMsg) : List CmsgItem :=
  match msg.control with
  | none => []
  | some control =>
    if msg.controllen < cmsghdrSize then []
    else cmsgItemsFrom control msg.controllen (msg.controllen + 1) 0

/-- `payload_len` of `sendmsg`, a `usize`. -/
def OutMsg.payloadLen (msg : OutMsg) : Nat := (msg.iov.map List.length).sum % 2 ^ 64

/-- The frame of a message with these rights: `hoff + payload_len` bytes. -/
def OutMsg.frame (msg : OutMsg) (rights : List FrameRight) : List UInt8 :=
  let header := frameHeader rights msg.payloadLen
  (header ++ msg.iov.flatten).take ((header.length + msg.payloadLen) % 2 ^ 64)

/-! ## The rights of a message -/

/-- How the walk over the control data ends. -/
inductive Collected where
  | rights (rs : List FrameRight)
  | error (e : Error)
  | endless

section Collect

variable {ρ : Type} (hasAcquire : ρ → Bool)

/-- Give back the references of a message with too many handles: only those with a callback. -/
def unwindRights (t : HandleTable ρ) : List FrameRight → HandleTable ρ
  | [] => t
  | r :: rs =>
    match t.lookup r.srcHid with
    | some e => unwindRights (if hasAcquire e.resource then (t.release r.srcHid).1 else t) rs
    | none => unwindRights t rs

/-- The loop of `sendmsg` that looks up each handle and takes a reference to it. -/
def collectRights (realm : UInt64) :
    List CmsgItem → HandleTable ρ → List FrameRight → HandleTable ρ × Collected
  | [], t, rights => (t, .rights rights)
  | .endless :: _, t, _ => (t, .endless)
  | .short :: _, t, _ => (t, .error .inval)
  | .right hid :: rest, t, rights =>
    if rights.length ≥ maxRights then (unwindRights hasAcquire t rights, .error .inval)
    else match t.lookup hid with
      | none => (t, .error .badH)
      | some e =>
        if e.transferable = false then (t, .error .acces)
        else collectRights realm rest (t.acquire hid) (rights ++ [⟨realm, hid⟩])

end Collect

/-! ## Calls under way -/

/-- An `iovec` that `recvmsg` may write to. -/
structure IoVec where
  null : Bool
  len : Nat
deriving DecidableEq, Repr

/-- `msghdr` as `recvmsg` reads it. -/
structure InMsg where
  iov : List IoVec
  control : Bool
  controllen : Nat
deriving DecidableEq, Repr

def InMsg.outCap (msg : InMsg) : Nat :=
  if msg.control then
    if msg.controllen > cmsgAlign cmsghdrSize then msg.controllen - cmsgAlign cmsghdrSize else 0
  else 0

/-- The arguments of a `recvmsg`. -/
structure RecvCall where
  realm : UInt64
  msg : InMsg
  blocking : Bool
deriving DecidableEq, Repr

/-- Where a unit is in its call, with the call's local variables. The direction is the channel
that the call works on. -/
inductive Phase (D : Type) where
  /-- The last call returned `r`; a `recvmsg` has written `data` to the payload buffers, `hids`
  to the control buffer and `controllen` to `msg_controllen`. -/
  | returned (r : Int) (data : List UInt8) (hids : List UInt64) (controllen : Nat)
  /-- The call will never return. -/
  | endless
  | send (d : D) (bs : List UInt8) (blocking : Bool)
  | sendFrame (d : D) (frame : List UInt8) (payloadLen : Nat) (rights : List FrameRight)
      (blocking : Bool)
  | recvHeader (d : D) (call : RecvCall)
  | recvRights (d : D) (call : RecvCall) (count : Nat)
  | recvLength (d : D) (call : RecvCall) (rights : List FrameRight)
  | scatter (d : D) (call : RecvCall) (rights : List FrameRight) (iov : List IoVec)
      (remaining : Nat) (data : List UInt8)
  | transfer (d : D) (call : RecvCall) (rights : List FrameRight) (data : List UInt8)
      (hids : List UInt64)

/-- A `send` or `sendmsg` that returned `r`. -/
abbrev Phase.ret {D : Type} (r : Int) : Phase D := .returned r [] [] 0

/-- A `recvmsg` that returned `r` before its end: `msg_controllen` is as the caller left it. -/
abbrev Phase.fail {D : Type} (call : RecvCall) (r : Int) (data : List UInt8) : Phase D :=
  .returned r data [] call.msg.controllen

/-- The channels, the handle tables of the realms, and the units' calls. -/
structure Sockets (ρ C U : Type) where
  channel : C × Bool → Channel
  table : UInt64 → Option (HandleTable ρ)
  phase : U → Phase (C × Bool)

namespace Sockets

variable {ρ C U : Type}

def setChannel [DecidableEq C] (st : Sockets ρ C U) (d : C × Bool) (c : Channel) : Sockets ρ C U :=
  { st with channel := Function.update st.channel d c }

def setTable (st : Sockets ρ C U) (realm : UInt64) (t : HandleTable ρ) : Sockets ρ C U :=
  { st with table := Function.update st.table realm (some t) }

def setPhase [DecidableEq U] (st : Sockets ρ C U) (u : U) (p : Phase (C × Bool)) : Sockets ρ C U :=
  { st with phase := Function.update st.phase u p }

section Fields

variable {st : Sockets ρ C U} {d d' : C × Bool} {c : Channel} {realm : UInt64} {t : HandleTable ρ}
  {u v : U} {p : Phase (C × Bool)}

@[simp] theorem setChannel_self [DecidableEq C] : (st.setChannel d c).channel d = c := by
  simp [setChannel]

/-- The other direction of a pair is a channel of its own. -/
@[simp] theorem setChannel_of_ne [DecidableEq C] (h : d' ≠ d) :
    (st.setChannel d c).channel d' = st.channel d' := by
  simp [setChannel, h]

@[simp] theorem setChannel_phase [DecidableEq C] : (st.setChannel d c).phase = st.phase := rfl

@[simp] theorem setPhase_self [DecidableEq U] : (st.setPhase u p).phase u = p := by simp [setPhase]

@[simp] theorem setPhase_of_ne [DecidableEq U] (h : v ≠ u) :
    (st.setPhase u p).phase v = st.phase v := by
  simp [setPhase, h]

@[simp] theorem setPhase_channel [DecidableEq U] : (st.setPhase u p).channel = st.channel := rfl

@[simp] theorem setTable_phase : (st.setTable realm t).phase = st.phase := rfl

@[simp] theorem setTable_channel : (st.setTable realm t).channel = st.channel := rfl

end Fields

/-- `release` in the table of the realm that the right names. -/
def releaseRight (st : Sockets ρ C U) (r : FrameRight) : Sockets ρ C U :=
  match st.table r.srcRealm with
  | none => st
  | some t => st.setTable r.srcRealm (t.release r.srcHid).1

/-- `release` for each right in turn. -/
def releaseRights (st : Sockets ρ C U) (rs : List FrameRight) : Sockets ρ C U :=
  rs.foldl releaseRight st

section

variable (st : Sockets ρ C U)

include st

/-- Rights are references in handle tables; no channel is touched. -/
@[simp] theorem releaseRight_channel (r : FrameRight) :
    (st.releaseRight r).channel = st.channel := by
  unfold releaseRight
  split <;> rfl

@[simp] theorem releaseRight_phase (r : FrameRight) : (st.releaseRight r).phase = st.phase := by
  unfold releaseRight
  split <;> rfl

/-- Nor is one by several. -/
@[simp] theorem releaseRights_channel (rs : List FrameRight) :
    (st.releaseRights rs).channel = st.channel := by
  induction rs generalizing st with
  | nil => rfl
  | cons r rs ih => exact (ih (st.releaseRight r)).trans (releaseRight_channel st r)

/-- The other calls in progress go on as they were. -/
@[simp] theorem releaseRights_phase (rs : List FrameRight) :
    (st.releaseRights rs).phase = st.phase := by
  induction rs generalizing st with
  | nil => rfl
  | cons r rs ih => exact (ih (st.releaseRight r)).trans (releaseRight_phase st r)

end

/-- The end of `sendmsg`, after the channel has taken `sent` bytes of the frame. -/
def finishSend [DecidableEq U] (st : Sockets ρ C U) (u : U) (rights : List FrameRight) (payloadLen frameLen : Nat)
    (sent : Int) : Sockets ρ C U :=
  if sent < 0 then (st.releaseRights rights).setPhase u (.ret sent)
  else if sent < frameLen then (st.releaseRights rights).setPhase u (.ret emsgsize)
  else st.setPhase u (.ret (isize payloadLen))

/-- A right of the frame, transferred to the receiver: the new handle, 0 if there is none. -/
def transferRight (hasAcquire : ρ → Bool) (st : Sockets ρ C U) (realm : UInt64) (r : FrameRight) :
    Sockets ρ C U × UInt64 :=
  match st.table r.srcRealm with
  | none => (st, 0)
  | some src =>
    match src.lookup r.srcHid, st.table realm with
    | some e, some dst =>
      match transferHandleToRealm hasAcquire e dst e.capabilities with
      | .ok (dst, hid) => ((st.setTable realm dst).releaseRight r, hid)
      | .error _ => (st.releaseRight r, 0)
    | _, _ => (st.releaseRight r, 0)

/-- A right that is taken over changes the two tables. -/
@[simp] theorem transferRight_channel {hasAcquire : ρ → Bool} {st : Sockets ρ C U}
    {realm : UInt64} {r : FrameRight} :
    (st.transferRight hasAcquire realm r).1.channel = st.channel := by
  unfold transferRight
  split
  · rfl
  split
  · split <;> simp
  · simp

/-- It is a part of the call that receives. -/
@[simp] theorem transferRight_phase {hasAcquire : ρ → Bool} {st : Sockets ρ C U}
    {realm : UInt64} {r : FrameRight} :
    (st.transferRight hasAcquire realm r).1.phase = st.phase := by
  unfold transferRight
  split
  · rfl
  split
  · split <;> simp
  · simp

variable [DecidableEq C] [DecidableEq U]

/-- The end of `recvmsg`. -/
def finishRecv (st : Sockets ρ C U) (u : U) (data : List UInt8) (hids : List UInt64) :
    Sockets ρ C U :=
  st.setPhase u (.returned data.length data hids
    (if hids = [] then 0 else cmsgAlign cmsghdrSize + cmsgAlign (8 * hids.length)))

/-- One step of the call of a unit. -/
def advance (hasAcquire : ρ → Bool) (st : Sockets ρ C U) (u : U) : Sockets ρ C U :=
  match st.phase u with
  | .returned .. | .endless => st
  | .send d bs blocking =>
    match (st.channel d).sendBytes bs with
    | .stay r => st.setPhase u (.ret r)
    | .wait => if blocking then st else st.setPhase u (.ret Error.again.toErrno)
    | .moved c n => (st.setChannel d c).setPhase u (.ret n)
  | .sendFrame d frame payloadLen rights blocking =>
    match (st.channel d).sendBytes frame with
    | .stay r => st.finishSend u rights payloadLen frame.length r
    | .wait =>
      if blocking then st
      else st.finishSend u rights payloadLen frame.length Error.again.toErrno
    | .moved c n => (st.setChannel d c).finishSend u rights payloadLen frame.length n
  | .recvHeader d call =>
    match (st.channel d).recvBytes 8 with
    | .stay r => st.setPhase u (.fail call r [])
    | .wait => if call.blocking then st else st.setPhase u (.fail call Error.again.toErrno [])
    | .moved (c, bs) n =>
      let st := st.setChannel d c
      let count := ofBytes (bs.drop 4)
      if n ≠ 8 ∨ ofBytes (bs.take 4) ≠ sendmsgFrameMagic then st.setPhase u (.fail call eproto [])
      else if count > maxRights then st.setPhase u (.fail call eproto [])
      else if count > 0 then st.setPhase u (.recvRights d call count)
      else st.setPhase u (.recvLength d call [])
  | .recvRights d call count =>
    match (st.channel d).recvBytes (count * 16) with
    | .stay _ => st.setPhase u (.fail call eproto [])
    | .wait => if call.blocking then st else st.setPhase u (.fail call eproto [])
    | .moved (c, bs) n =>
      let st := st.setChannel d c
      if n ≠ count * 16 then st.setPhase u (.fail call eproto [])
      else st.setPhase u (.recvLength d call (rightsOfBytes count bs))
  | .recvLength d call rights =>
    match (st.channel d).recvBytes 4 with
    | .stay _ => st.setPhase u (.fail call eproto [])
    | .wait => if call.blocking then st else st.setPhase u (.fail call eproto [])
    | .moved (c, bs) n =>
      let st := st.setChannel d c
      if n ≠ 4 then st.setPhase u (.fail call eproto [])
      else st.setPhase u (.scatter d call rights call.msg.iov (ofBytes bs) [])
  | .scatter d call rights iov remaining data =>
    match iov with
    | v :: rest =>
      if remaining = 0 then st.setPhase u (.scatter d call rights [] remaining data)
      else
        let want := min remaining v.len
        -- a null pointer makes `recv` return 0, and so do no bytes to read
        if v.null ∨ want = 0 then
          st.setPhase u (.scatter d call rights (if 0 < want then [] else rest) remaining data)
        else
          match (st.channel d).recvBytes want with
          | .stay _ => st.setPhase u (.scatter d call rights [] remaining data)
          | .wait =>
            if call.blocking then st
            else st.setPhase u (.fail call Error.again.toErrno data)
          | .moved (c, bs) n =>
            -- a short read ends the loop
            (st.setChannel d c).setPhase u
              (.scatter d call rights (if n < want then [] else rest) (remaining - n) (data ++ bs))
    | [] =>
      match st.table call.realm with
      | none => st.setPhase u (.fail call Error.srch.toErrno data)
      | some _ => st.setPhase u (.transfer d call rights data [])
  | .transfer d call rights data hids =>
    match rights with
    | [] => st.finishRecv u data hids
    | r :: rest =>
      let (st, hid) := st.transferRight hasAcquire call.realm r
      -- without room in the control buffer the new handle is not reported
      st.setPhase u (.transfer d call rest data
        (if 8 * hids.length + 8 ≤ call.msg.outCap then hids ++ [hid] else hids))

/-- The first part of `sendmsg`, up to the access to the channel. -/
def startSendmsg (hasAcquire : ρ → Bool) (st : Sockets ρ C U) (u : U) (d : C × Bool)
    (realm : UInt64) (msg : OutMsg) (blocking mallocOk : Bool) : Sockets ρ C U :=
  match st.table realm with
  | none => st.setPhase u (.ret Error.srch.toErrno)
  | some t =>
    match collectRights hasAcquire realm msg.items t [] with
    | (t, .endless) => (st.setTable realm t).setPhase u .endless
    | (t, .error e) => (st.setTable realm t).setPhase u (.ret e.toErrno)
    | (t, .rights rights) =>
      let st := st.setTable realm t
      if mallocOk then
        st.setPhase u (.sendFrame d (msg.frame rights) msg.payloadLen rights blocking)
      else (st.releaseRights rights).setPhase u (.ret Error.noMem.toErrno)

/-- The calls, each on one end of a connection, and the steps of a call under way. -/
inductive Step (C U : Type) where
  | send (u : U) (ep : C × Bool) (bs : List UInt8) (blocking : Bool)
  | sendmsg (u : U) (ep : C × Bool) (realm : UInt64) (msg : OutMsg) (blocking mallocOk : Bool)
  | recvmsg (u : U) (ep : C × Bool) (realm : UInt64) (msg : InMsg) (blocking : Bool)
  | advance (u : U)

/-- The direction that an end reads: its `rx` is the other end's `tx`. -/
def rx (ep : C × Bool) : C × Bool := (ep.1, !ep.2)

/-- The last call of a unit has returned. -/
def Idle (st : Sockets ρ C U) (u : U) : Prop :=
  match st.phase u with
  | .returned .. => True
  | _ => False

instance (st : Sockets ρ C U) (u : U) : Decidable (st.Idle u) :=
  match h : st.phase u with
  | .returned .. => .isTrue (by simp [Idle, h])
  | .endless | .send .. | .sendFrame .. | .recvHeader .. | .recvRights .. | .recvLength ..
  | .scatter .. | .transfer .. => .isFalse (by simp [Idle, h])

/-- One step; a unit makes a call only when its last one has returned. -/
def step (hasAcquire : ρ → Bool) (st : Sockets ρ C U) (x : Step C U) : Sockets ρ C U × Unit :=
  match x with
  | .send u ep bs blocking =>
    if st.Idle u then (st.setPhase u (.send ep bs blocking), ()) else (st, ())
  | .sendmsg u ep realm msg blocking mallocOk =>
    if st.Idle u then (st.startSendmsg hasAcquire u ep realm msg blocking mallocOk, ())
    else (st, ())
  | .recvmsg u ep realm msg blocking =>
    if st.Idle u then (st.setPhase u (.recvHeader (rx ep) ⟨realm, msg, blocking⟩), ())
    else (st, ())
  | .advance u => (st.advance hasAcquire u, ())

end Sockets

end Vespera.Ipc
