import Vespera.Klib.Result
import Vespera.Lib.PartialMap
import Vespera.Lib.Run
import Mathlib.Data.List.FinRange

/-! # The message bus

`VBusManager` routes messages between realms: `subscribe` registers interest in an interface,
`emit_from_realm` sends a signal to every subscriber, a CALL to the first one, and a RETURN or
ERROR to the realm whose CALL it answers. The calls in flight of all realms stand in one table
and are found by their serial alone, which the sender chooses.

A realm's channel is named by the realm's id. The state keeps the messages that were ever
written to a channel, in order (`delivered`), so that "had an unanswered CALL" can be counted:
`callsOf` and `repliesOf` count the CALLs from one realm to another under a serial and the
replies that came back.

* `VBus.replies_answer_calls`: if serials of calls in flight are never used twice, whoever sends
  them, and realms only answer what was sent to them, then every reply goes to the realm whose
  call it answers, and no call is answered twice.
* `VBus.reply_to_stranger`: a realm may answer a call that was sent to another one, and with two
  callers that count their serials from one, an honest reply goes to the wrong caller.
-/

namespace Vespera.Ipc

open Klib Function Lib

def vbusMagic : UInt32 := 0x56425553
def vbusMaxPayloadSize : Nat := 4096
def vbusNameMax : Nat := 48
def vbusMaxSubscriptions : Nat := 256
def vbusMaxPendingCalls : Nat := 64

def vbusMsgSignal : UInt8 := 1
def vbusMsgCall : UInt8 := 2
def vbusMsgReturn : UInt8 := 3
def vbusMsgError : UInt8 := 4

/-- `sizeof(vbus_header_t)`. -/
def vbusHeaderSize : Nat := 144

/-- `vbus_header_t`: the fields the kernel reads or writes. -/
structure VbusHeader where
  magic : UInt32
  type : UInt8
  serial : UInt64
  replySerial : UInt64
  destRealmId : Nat
  interface : List UInt8
  member : List UInt8
  senderId : UInt32
deriving Repr, DecidableEq

/-- The header with the real sender in it, in case someone tries to impersonate someone else. -/
def VbusHeader.stamped (hdr : VbusHeader) (realmId : Nat) : VbusHeader :=
  { hdr with senderId := UInt32.ofNat realmId }

/-- A message on a channel: which realm sent it, on whose channel it is, and what it says. -/
structure Delivery where
  src : Nat
  dst : Nat
  hdr : VbusHeader
  payload : List UInt8
deriving Repr, DecidableEq

/-- An active entry of `subs_`. -/
structure Subscription where
  realmId : Nat
  ep : Nat
  interface : List UInt8
  member : List UInt8
deriving Repr, DecidableEq

/-- An active entry of `pending_`. -/
structure PendingCall where
  serial : UInt64
  callerChannel : Nat
  callerRealmId : Nat
deriving Repr, DecidableEq

/-- `VBusManager` with the channels it writes to: the bytes still free in each, and what was
written so far. -/
structure VBus where
  subs : Fin vbusMaxSubscriptions → Option Subscription
  pending : Fin vbusMaxPendingCalls → Option PendingCall
  freeSpace : Nat → Nat
  delivered : List Delivery

namespace VBus

/-! ## The manager -/

/-- The name as it is kept in a `char[48]`. -/
def truncate (name : List UInt8) : List UInt8 := name.take (vbusNameMax - 1)

variable (vb : VBus)

/-- `VBusManager::subscribe`. A null `member` is the empty name. -/
def subscribe (realmId : Nat) (rxEp : Option Nat)
    (interface member : Option (List UInt8)) : VBus × Int :=
  match rxEp, interface with
  | some ep, some interface =>
    let name := member.getD []
    let same := fun i => match vb.subs i with
      | some s => decide (s.realmId = realmId ∧ s.interface = interface ∧ s.member = name)
      | none => false
    -- idempotent
    if (List.finRange vbusMaxSubscriptions).any same then (vb, 0)
    else
      match (List.finRange vbusMaxSubscriptions).find? fun i => (vb.subs i).isNone with
      | some i =>
        let s : Subscription := ⟨realmId, ep, truncate interface, truncate name⟩
        ({ vb with subs := update vb.subs i (some s) }, 0)
      | none => (vb, Error.toErrno .noMem)
  | _, _ => (vb, Error.toErrno .inval)

def unsubscribeRealm (realmId : Nat) : VBus :=
  { vb with subs := fun i => (vb.subs i).filter fun s => s.realmId != realmId }

def cancelPendingForRealm (realmId : Nat) : VBus :=
  { vb with pending := fun i => (vb.pending i).filter fun p => p.callerRealmId != realmId }

/-- `VBusManager::matches`: an empty member matches every member. -/
def «matches» (s : Subscription) (interface member : List UInt8) : Bool :=
  if s.interface ≠ interface then false
  else if s.member = [] then true
  else s.member = member

/-- `VBusManager::deliver`: the whole message or nothing. -/
def deliver (src ch : Nat) (hdr : VbusHeader) (payload : List UInt8) : Option VBus :=
  let total := vbusHeaderSize + payload.length
  if vb.freeSpace ch < total then none
  else some { vb with
    freeSpace := update vb.freeSpace ch (vb.freeSpace ch - total)
    delivered := vb.delivered ++ [⟨src, ch, hdr, payload⟩] }

def pushPending (serial : UInt64) (callerChannel callerRealmId : Nat) : VBus × Int :=
  match (List.finRange vbusMaxPendingCalls).find? fun i => (vb.pending i).isNone with
  | some i =>
    ({ vb with
      pending := update vb.pending i (some ⟨serial, callerChannel, callerRealmId⟩) }, 0)
  | none => (vb, Error.toErrno .noMem)

/-- The first call in flight with a serial. -/
def findPending (replySerial : UInt64) : Option (Fin vbusMaxPendingCalls) :=
  (List.finRange vbusMaxPendingCalls).find? fun i =>
    (vb.pending i).any fun p => p.serial == replySerial

def popPending (replySerial : UInt64) : Option (VBus × PendingCall) :=
  match vb.findPending replySerial with
  | some i =>
    match vb.pending i with
    | some p => some ({ vb with pending := update vb.pending i none }, p)
    | none => none
  | none => none

/-- The subscription a CALL goes to: the first that matches, the sender's own apart. -/
def callee (callerRealmId : Nat) (hdr : VbusHeader) : Option Subscription :=
  (List.finRange vbusMaxSubscriptions).findSome? fun i =>
    (vb.subs i).filter fun s =>
      s.realmId != callerRealmId && «matches» s hdr.interface hdr.member

variable {vb}

/-- One turn of the loop that sends a signal to its subscribers. -/
def signalOne (callerRealmId : Nat) (hdr : VbusHeader) (payload : List UInt8) (vb : VBus)
    (i : Fin vbusMaxSubscriptions) : VBus :=
  match vb.subs i with
  | none => vb
  | some s =>
    if s.realmId = callerRealmId then vb
    else if hdr.destRealmId ≠ 0 ∧ s.realmId ≠ hdr.destRealmId then vb
    else if «matches» s hdr.interface hdr.member = false then vb
    -- a full channel loses the signal
    else (vb.deliver callerRealmId s.ep hdr payload).getD vb

def emitFromRealm (vb : VBus) (callerRealmId callerEp : Nat) (hdr : VbusHeader)
    (payload : List UInt8) : VBus × Int :=
  if hdr.magic ≠ vbusMagic then (vb, Error.toErrno .inval)
  else
    let hdr := hdr.stamped callerRealmId
    if hdr.type = vbusMsgReturn ∨ hdr.type = vbusMsgError then
      match vb.popPending hdr.replySerial with
      | none => (vb, Error.toErrno .noEnt)
      | some (vb, pc) =>
        match vb.deliver callerRealmId pc.callerChannel hdr payload with
        -- the call is no longer in flight
        | none => (vb, Error.toErrno .again)
        | some vb => (vb, 0)
    else if hdr.type = vbusMsgCall then
      match vb.callee callerRealmId hdr with
      | none => (vb, Error.toErrno .noEnt)
      | some s =>
        match vb.deliver callerRealmId s.ep hdr payload with
        | none => (vb, Error.toErrno .again)
        -- with a full table the call is delivered, and cannot be answered
        | some vb => ((vb.pushPending hdr.serial callerEp callerRealmId).1, 0)
    else if hdr.type = vbusMsgSignal then
      ((List.finRange vbusMaxSubscriptions).foldl (signalOne callerRealmId hdr payload) vb, 0)
    else (vb, Error.toErrno .inval)

/-- `sys_vbus_emit`, with the realm's own endpoint. -/
def sysVbusEmit (vb : VBus) (realm : Nat) (hdr : VbusHeader) (payload : List UInt8) : VBus × Int :=
  if vbusMaxPayloadSize < payload.length then (vb, Error.toErrno .inval)
  else vb.emitFromRealm realm realm hdr payload

/-! ## Calls on the bus -/

/-- What happens on the bus: system calls of realms, a realm that ends, and a realm that reads
`n` bytes from its channel. -/
inductive BusCall where
  | subscribe (realm : Nat) (interface member : Option (List UInt8))
  | unsubscribe (realm : Nat)
  | emit (realm : Nat) (hdr : VbusHeader) (payload : List UInt8)
  | ended (realm : Nat)
  | read (realm n : Nat)
deriving Repr, DecidableEq

/-- One call. -/
def busStep (vb : VBus) : BusCall → VBus × Int
  | .subscribe realm interface member => vb.subscribe realm (some realm) interface member
  | .unsubscribe realm => (vb.unsubscribeRealm realm, 0)
  | .emit realm hdr payload => vb.sysVbusEmit realm hdr payload
  | .ended realm => ((vb.unsubscribeRealm realm).cancelPendingForRealm realm, 0)
  | .read realm n =>
    ({ vb with freeSpace := update vb.freeSpace realm (vb.freeSpace realm + n) }, 0)

/-- The bus after boot: channels of a given size, nothing subscribed. -/
def boot (size : Nat) : VBus where
  subs := fun _ => none
  pending := fun _ => none
  freeSpace := fun _ => size
  delivered := []

/-! ## Calls and their answers -/

end VBus

/-- A CALL from `caller` on the channel of `callee`. -/
def Delivery.isCall (caller callee : Nat) (serial : UInt64) (d : Delivery) : Bool :=
  d.hdr.type == vbusMsgCall && d.src == caller && d.dst == callee && d.hdr.serial == serial

/-- A RETURN or ERROR message. -/
def Delivery.reply (d : Delivery) : Bool :=
  d.hdr.type == vbusMsgReturn || d.hdr.type == vbusMsgError

/-- A reply from `callee` on the channel of `caller`. -/
def Delivery.isReply (caller callee : Nat) (serial : UInt64) (d : Delivery) : Bool :=
  d.reply && d.dst == caller && d.src == callee && d.hdr.replySerial == serial

namespace VBus

/-- How many CALLs with a serial `caller` got through to `callee`. -/
def callsOf (log : List Delivery) (caller callee : Nat) (serial : UInt64) : Nat :=
  log.countP (Delivery.isCall caller callee serial)

/-- How many replies under a serial `callee` got through to `caller`. -/
def repliesOf (log : List Delivery) (caller callee : Nat) (serial : UInt64) : Nat :=
  log.countP (Delivery.isReply caller callee serial)

/-- `caller` has a CALL at `callee` that was not answered yet. -/
def Unanswered (log : List Delivery) (caller callee : Nat) (serial : UInt64) : Prop :=
  repliesOf log caller callee serial < callsOf log caller callee serial

instance (log : List Delivery) (caller callee : Nat) (serial : UInt64) :
    Decidable (Unanswered log caller callee serial) :=
  inferInstanceAs (Decidable (_ < _))

/-- Every reply answers a call: when it was delivered, the realm that got it had an unanswered
call at the realm that sent it, with the serial it carries; and there are never more replies
than calls. -/
structure RepliesAnswer (log : List Delivery) : Prop where
  each : ∀ before d after, log = before ++ d :: after → d.reply = true →
    Unanswered before d.dst d.src d.hdr.replySerial
  once : ∀ caller callee serial,
    repliesOf log caller callee serial ≤ callsOf log caller callee serial

/-- How realms have to use the bus: a CALL carries a serial that no unanswered call carries, of
whichever realms, and a RETURN or ERROR carries the serial of an unanswered call that was
delivered to its sender. -/
def Disciplined (vb : VBus) : BusCall → Prop
  | .emit realm hdr _ =>
    (hdr.type = vbusMsgCall → ∀ d ∈ vb.delivered, d.hdr.serial = hdr.serial →
      ¬Unanswered vb.delivered d.src d.dst hdr.serial) ∧
    (hdr.type = vbusMsgReturn ∨ hdr.type = vbusMsgError →
      ∃ d ∈ vb.delivered, Unanswered vb.delivered d.src realm hdr.replySerial)
  | _ => True

instance (vb : VBus) : ∀ c, Decidable (Disciplined vb c)
  | .emit .. => inferInstanceAs (Decidable ((_ → ∀ _ ∈ _, _ → _) ∧ (_ ∨ _ → ∃ _ ∈ _, _)))
  | .subscribe .. | .unsubscribe _ | .ended _ | .read .. => isTrue trivial

/-! ### Counting -/

variable {vb vb' : VBus} {log : List Delivery} {d : Delivery} {a b : Nat} {s : UInt64}
  {payload : List UInt8}

theorem callsOf_snoc :
    callsOf (log ++ [d]) a b s = callsOf log a b s + if d.isCall a b s then 1 else 0 := by
  simp [callsOf, List.countP_append, List.countP_singleton]

theorem repliesOf_snoc :
    repliesOf (log ++ [d]) a b s = repliesOf log a b s + if d.isReply a b s then 1 else 0 := by
  simp [repliesOf, List.countP_append, List.countP_singleton]

theorem isCall_iff : d.isCall a b s ↔
      d.hdr.type = vbusMsgCall ∧ d.src = a ∧ d.dst = b ∧ d.hdr.serial = s := by
  simp [Delivery.isCall, and_assoc]

theorem isReply_iff : d.isReply a b s ↔
      d.reply ∧ d.dst = a ∧ d.src = b ∧ d.hdr.replySerial = s := by
  simp [Delivery.isReply, and_assoc]

theorem not_reply_of_call (h : d.hdr.type = vbusMsgCall) : d.reply = false := by
  rw [Delivery.reply, h]
  decide

theorem not_call_of_reply (h : d.reply) : d.hdr.type ≠ vbusMsgCall := by
  intro hcall
  rw [not_reply_of_call hcall] at h
  cases h

/-- An unanswered call is in the log. -/
theorem Unanswered.mem (h : Unanswered log a b s) :
    ∃ d ∈ log, d.src = a ∧ d.dst = b ∧ d.hdr.serial = s := by
  have hpos : 0 < callsOf log a b s := Nat.lt_of_le_of_lt (Nat.zero_le _) h
  obtain ⟨d, hd, hcall⟩ := List.countP_pos_iff.mp hpos
  exact ⟨d, hd, (isCall_iff.mp hcall).2⟩

/-- A call only changes the count of its own sender, receiver and serial. -/
theorem unanswered_call (hd : d.hdr.type = vbusMsgCall) (h : Unanswered (log ++ [d]) a b s) :
    Unanswered log a b s ∨ d.src = a ∧ d.dst = b ∧ d.hdr.serial = s := by
  by_cases hcall : d.isCall a b s
  · exact .inr (isCall_iff.mp hcall).2
  left
  have hreply : d.isReply a b s = false := by
    simp [Delivery.isReply, not_reply_of_call hd]
  simpa [Unanswered, callsOf_snoc, repliesOf_snoc, hcall, hreply] using h

/-- What is written to a channel leaves other calls unanswered. -/
theorem Unanswered.snoc
    (h : Unanswered log a b s) (hd : d.isReply a b s = false) : Unanswered (log ++ [d]) a b s := by
  simp only [Unanswered, callsOf_snoc, repliesOf_snoc, hd]
  exact Nat.lt_of_lt_of_le h (Nat.le_add_right _ _)

/-- A reply leaves no call unanswered that was answered before. -/
theorem unanswered_of_reply
    (hd : d.hdr.type ≠ vbusMsgCall) (h : Unanswered (log ++ [d]) a b s) : Unanswered log a b s := by
  have hcall : d.isCall a b s = false := by simp [Delivery.isCall, hd]
  simp only [Unanswered, callsOf_snoc, repliesOf_snoc, hcall] at h ⊢
  exact Nat.lt_of_le_of_lt (Nat.le_add_right _ _) h

theorem RepliesAnswer.nil : RepliesAnswer [] where
  each := by
    intro before d after h
    simp at h
  once := by
    intro a b s
    exact Nat.le_refl _

/-- The property grows with the log: a new reply has to answer a call. -/
theorem RepliesAnswer.snoc (h : RepliesAnswer log)
    (hd : d.reply → Unanswered log d.dst d.src d.hdr.replySerial) : RepliesAnswer (log ++ [d]) where
  each := by
    intro before e after heq hreply
    rcases List.eq_nil_or_concat after with rfl | ⟨rest, last, rfl⟩
    -- the new message
    · obtain ⟨rfl, hde⟩ := List.append_inj' heq rfl
      cases hde
      exact hd hreply
    -- one of those before it
    · have heq' : log ++ [d] = (before ++ e :: rest) ++ [last] := by simpa using heq
      exact h.each before e rest (List.append_inj' heq' rfl).1 hreply
  once := by
    intro a b s
    have hle := h.once a b s
    rw [callsOf_snoc, repliesOf_snoc]
    by_cases hreply : d.isReply a b s
    · obtain ⟨hr, rfl, rfl, rfl⟩ := isReply_iff.mp hreply
      have hlt : repliesOf log d.dst d.src d.hdr.replySerial <
        callsOf log d.dst d.src d.hdr.replySerial := hd hr
      rw [if_pos hreply]
      omega
    · rw [if_neg hreply]
      omega

/-! ### The invariant -/

/-- Serials of unanswered calls are all different, and each call in flight is one of them. -/
structure Orderly (vb : VBus) : Prop where
  replies : RepliesAnswer vb.delivered
  single : ∀ a b a' b' s, Unanswered vb.delivered a b s → Unanswered vb.delivered a' b' s →
    a = a' ∧ b = b'
  backed : ∀ i p, vb.pending i = some p →
    ∃ callee, Unanswered vb.delivered p.callerChannel callee p.serial
  distinct : ∀ i j p q, vb.pending i = some p → vb.pending j = some q → p.serial = q.serial → i = j

theorem orderly_boot {size : Nat} : Orderly (boot size) where
  replies := .nil
  single := by
    intro a b a' b' s h
    exact absurd h (Nat.lt_irrefl 0)
  backed := by
    intro i p h
    cases h
  distinct := by
    intro i j p q h
    cases h

section

variable (h : Orderly vb)

include h

/-- Only the log and the calls in flight matter. -/
theorem Orderly.pendingSubset (hlog : vb'.delivered = vb.delivered)
    (hpending : ∀ i p, vb'.pending i = some p → vb.pending i = some p) : Orderly vb' where
  replies := hlog ▸ h.replies
  single := hlog ▸ h.single
  backed := by
    intro i p hp
    rw [hlog]
    exact h.backed i p (hpending i p hp)
  distinct := by
    intro i j p q hp hq
    exact h.distinct i j p q (hpending i p hp) (hpending j q hq)

/-- Neither a call nor a reply. -/
theorem Orderly.signal
    (hd : d.hdr.type = vbusMsgSignal) (hlog : vb'.delivered = vb.delivered ++ [d])
    (hpending : vb'.pending = vb.pending) : Orderly vb' := by
  have hcall : d.hdr.type ≠ vbusMsgCall := by
    rw [hd]
    decide
  have hreply : d.reply = false := by
    rw [Delivery.reply, hd]
    decide
  have hnot : ∀ a b s, d.isReply a b s = false := by
    intro a b s
    simp [Delivery.isReply, hreply]
  refine ⟨?_, ?_, ?_, ?_⟩
  · rw [hlog]
    exact h.replies.snoc (fun hr => by rw [hreply] at hr; cases hr)
  · rw [hlog]
    intro a b a' b' s h1 h2
    exact h.single a b a' b' s (unanswered_of_reply hcall h1) (unanswered_of_reply hcall h2)
  · rw [hlog, hpending]
    intro i p hp
    obtain ⟨callee, hun⟩ := h.backed i p hp
    exact ⟨callee, hun.snoc (hnot _ _ _)⟩
  · rw [hpending]
    exact h.distinct

/-- A CALL under a serial that no unanswered call has. It may or may not get an entry among the
calls in flight. -/
theorem Orderly.call (hd : d.hdr.type = vbusMsgCall)
    (hfresh : ∀ a b, ¬Unanswered vb.delivered a b d.hdr.serial)
    (hlog : vb'.delivered = vb.delivered ++ [d])
    (hpending : vb'.pending = vb.pending ∨ ∃ i, vb.pending i = none ∧
      vb'.pending = update vb.pending i (some ⟨d.hdr.serial, d.src, d.src⟩)) : Orderly vb' := by
  have hreply := not_reply_of_call hd
  have hnot : ∀ a b s, d.isReply a b s = false := by
    intro a b s
    simp [Delivery.isReply, hreply]
  have hnew : Unanswered (vb.delivered ++ [d]) d.src d.dst d.hdr.serial := by
    have hcall : d.isCall d.src d.dst d.hdr.serial := isCall_iff.mpr ⟨hd, rfl, rfl, rfl⟩
    have hle := h.replies.once d.src d.dst d.hdr.serial
    simp only [Unanswered, callsOf_snoc, repliesOf_snoc, hcall, hnot]
    simp only [Bool.false_eq_true, if_true, if_false]
    omega
  have hold : ∀ i p, vb.pending i = some p → p.serial ≠ d.hdr.serial := by
    intro i p hp heq
    obtain ⟨callee, hun⟩ := h.backed i p hp
    exact hfresh _ _ (heq ▸ hun)
  have hbacked : ∀ i p, vb.pending i = some p →
      ∃ callee, Unanswered (vb.delivered ++ [d]) p.callerChannel callee p.serial := by
    intro i p hp
    obtain ⟨callee, hun⟩ := h.backed i p hp
    exact ⟨callee, hun.snoc (hnot _ _ _)⟩
  refine ⟨?_, ?_, ?_, ?_⟩
  · rw [hlog]
    exact h.replies.snoc (fun hr => by rw [hreply] at hr; cases hr)
  · rw [hlog]
    intro a b a' b' s h1 h2
    rcases unanswered_call hd h1 with h1 | ⟨rfl, rfl, rfl⟩
    · rcases unanswered_call hd h2 with h2 | ⟨rfl, rfl, rfl⟩
      · exact h.single a b a' b' s h1 h2
      · exact absurd h1 (hfresh a b)
    · rcases unanswered_call hd h2 with h2 | ⟨rfl, rfl, -⟩
      · exact absurd h2 (hfresh a' b')
      · exact ⟨rfl, rfl⟩
  · rw [hlog]
    intro i p hp
    rcases hpending with hsame | ⟨j, -, hupd⟩
    · exact hbacked i p (hsame ▸ hp)
    rw [hupd] at hp
    rcases update_eq_some hp with ⟨-, ⟨⟩⟩ | ⟨-, hold⟩
    · exact ⟨d.dst, hnew⟩
    · exact hbacked i p hold
  intro i j p q hp hq heq
  rcases hpending with hsame | ⟨k, -, hupd⟩
  · rw [hsame] at hp hq
    exact h.distinct i j p q hp hq heq
  rw [hupd] at hp hq
  -- the new entry has a serial of its own
  rcases update_eq_some hp with ⟨rfl, ⟨⟩⟩ | ⟨-, hp⟩
  · rcases update_eq_some hq with ⟨rfl, -⟩ | ⟨-, hq⟩
    · rfl
    · exact absurd heq.symm (hold j q hq)
  · rcases update_eq_some hq with ⟨-, ⟨⟩⟩ | ⟨-, hq⟩
    · exact absurd heq (hold i p hp)
    · exact h.distinct i j p q hp hq heq

/-- A reply to the realm whose entry the serial finds, by a realm that has such a call. -/
theorem Orderly.answer (hd : d.reply)
    {i : Fin vbusMaxPendingCalls} {p : PendingCall} (hp : vb.pending i = some p)
    (hserial : p.serial = d.hdr.replySerial) (hdst : d.dst = p.callerChannel)
    (hsrc : ∃ caller, Unanswered vb.delivered caller d.src d.hdr.replySerial)
    (hlog : vb'.delivered = vb.delivered ++ [d])
    (hpending : vb'.pending = update vb.pending i none) : Orderly vb' := by
  have hcall := not_call_of_reply hd
  -- the serial names one unanswered call: the one in flight is the one the sender got
  have hmine : Unanswered vb.delivered d.dst d.src d.hdr.replySerial := by
    obtain ⟨caller, hun⟩ := hsrc
    obtain ⟨callee, hfound⟩ := h.backed i p hp
    rw [hserial] at hfound
    obtain ⟨hcaller, -⟩ := h.single _ _ _ _ _ hun hfound
    rw [hdst, ← hcaller]
    exact hun
  have hothers : ∀ j q, update vb.pending i none j = some q →
      vb.pending j = some q ∧ q.serial ≠ d.hdr.replySerial := by
    intro j q hq
    rcases update_eq_some hq with ⟨-, ⟨⟩⟩ | ⟨hji, hq⟩
    refine ⟨hq, ?_⟩
    intro heq
    exact hji (h.distinct j i q p hq hp (heq.trans hserial.symm))
  refine ⟨?_, ?_, ?_, ?_⟩
  · rw [hlog]
    exact h.replies.snoc (fun _ => hmine)
  · rw [hlog]
    intro a b a' b' s h1 h2
    exact h.single a b a' b' s (unanswered_of_reply hcall h1) (unanswered_of_reply hcall h2)
  · rw [hlog, hpending]
    intro j q hq
    obtain ⟨hold, hne⟩ := hothers j q hq
    obtain ⟨callee, hun⟩ := h.backed j q hold
    refine ⟨callee, hun.snoc ?_⟩
    simp [Delivery.isReply, Ne.symm hne]
  · rw [hpending]
    intro j k q r hq hr
    exact h.distinct j k q r (hothers j q hq).1 (hothers k r hr).1

end

/-! ### What the functions do -/

theorem deliver_some {src ch : Nat} {hdr : VbusHeader}
    (h : vb.deliver src ch hdr payload = some vb') :
    vb'.delivered = vb.delivered ++ [⟨src, ch, hdr, payload⟩] ∧ vb'.pending = vb.pending := by
  rw [deliver] at h
  split at h
  · cases h
  · cases h
    exact ⟨rfl, rfl⟩

theorem popPending_some {serial : UInt64} {p : PendingCall}
    (h : vb.popPending serial = some (vb', p)) :
    ∃ i, vb.pending i = some p ∧ p.serial = serial ∧ vb'.delivered = vb.delivered ∧
      vb'.pending = update vb.pending i none := by
  rw [popPending] at h
  split at h
  · rename_i i hfind
    split at h
    · rename_i q hq
      cases h
      have hserial := List.find?_some hfind
      rw [hq] at hserial
      exact ⟨i, hq, by simpa using hserial, rfl, rfl⟩
    · cases h
  · cases h

theorem pushPending_cases (vb : VBus) (serial : UInt64) (ch realm : Nat) :
    (vb.pushPending serial ch realm).1.delivered = vb.delivered ∧
      ((vb.pushPending serial ch realm).1.pending = vb.pending ∨
        ∃ i, vb.pending i = none ∧ (vb.pushPending serial ch realm).1.pending =
          update vb.pending i (some ⟨serial, ch, realm⟩)) := by
  rw [pushPending]
  split
  · rename_i i hfind
    have hnone := List.find?_some hfind
    exact ⟨rfl, .inr ⟨i, by simpa using hnone, rfl⟩⟩
  · exact ⟨rfl, .inl rfl⟩

theorem subscribe_same (vb : VBus) (realm : Nat) (ep : Option Nat)
    (interface member : Option (List UInt8)) :
    (vb.subscribe realm ep interface member).1.delivered = vb.delivered ∧
      (vb.subscribe realm ep interface member).1.pending = vb.pending := by
  unfold subscribe
  split
  · dsimp only
    split
    · exact ⟨rfl, rfl⟩
    · split
      · exact ⟨rfl, rfl⟩
      · exact ⟨rfl, rfl⟩
  · exact ⟨rfl, rfl⟩

/-- One subscriber of a signal. -/
theorem Orderly.signalOne (h : Orderly vb) {realm : Nat} {hdr : VbusHeader}
    (hd : hdr.type = vbusMsgSignal) (i : Fin vbusMaxSubscriptions) :
    Orderly (signalOne realm hdr payload vb i) := by
  rw [VBus.signalOne]
  split
  · exact h
  rename_i s _
  split
  · exact h
  split
  · exact h
  split
  · exact h
  cases hdel : vb.deliver realm s.ep hdr payload with
  | none => exact h
  | some vb' =>
    obtain ⟨hlog, hpending⟩ := deliver_some hdel
    exact h.signal hd hlog hpending

/-- All subscribers of a signal. -/
theorem Orderly.signals {realm : Nat} {hdr : VbusHeader}
    (hd : hdr.type = vbusMsgSignal) {slots : List (Fin vbusMaxSubscriptions)}
    (h : Orderly vb) : Orderly (slots.foldl (VBus.signalOne realm hdr payload) vb) := by
  induction slots generalizing vb with
  | nil => exact h
  | cons i slots ih => exact ih (h.signalOne hd i)

/-- A message sent by a realm that keeps to the discipline. -/
theorem Orderly.emit (h : Orderly vb) {realm : Nat} {hdr : VbusHeader}
    (hdisc : Disciplined vb (.emit realm hdr payload)) :
    Orderly (vb.emitFromRealm realm realm hdr payload).1 := by
  obtain ⟨hcalls, hreplies⟩ := hdisc
  rw [emitFromRealm]
  split
  · exact h
  dsimp only
  split
  -- RETURN and ERROR
  · rename_i htype
    split
    · exact h
    rename_i vb1 pc hpop
    obtain ⟨i, hp, hserial, hlog1, hpending1⟩ := popPending_some hpop
    split
    -- the channel is full: the call is out of the table, and not answered
    · refine h.pendingSubset hlog1 ?_
      intro j q hq
      rw [hpending1] at hq
      rcases update_eq_some hq with ⟨-, ⟨⟩⟩ | ⟨-, hold⟩
      exact hold
    rename_i vb2 hdel
    obtain ⟨hlog2, hpending2⟩ := deliver_some hdel
    have hreply : Delivery.reply ⟨realm, pc.callerChannel, hdr.stamped realm, payload⟩ =
        true := by
      simpa [Delivery.reply] using htype
    obtain ⟨d, -, hun⟩ := hreplies htype
    exact h.answer hreply hp hserial rfl ⟨d.src, hun⟩ (by rw [hlog2, hlog1])
      (by rw [hpending2, hpending1])
  split
  -- CALL
  · rename_i htype
    split
    · exact h
    rename_i s _
    split
    · exact h
    rename_i vb1 hdel
    obtain ⟨hlog1, hpending1⟩ := deliver_some hdel
    obtain ⟨hlog2, hpending2⟩ := pushPending_cases vb1 hdr.serial realm realm
    have hfresh : ∀ a b, ¬Unanswered vb.delivered a b hdr.serial := by
      intro a b hun
      obtain ⟨d, hd, rfl, rfl, hserial⟩ := hun.mem
      exact hcalls htype d hd hserial hun
    refine @Orderly.call vb _ ⟨realm, s.ep, hdr.stamped realm, payload⟩ h htype hfresh ?_ ?_
    · exact hlog2.trans hlog1
    · rw [hpending1] at hpending2
      exact hpending2
  split
  -- SIGNAL
  · rename_i htype
    have hsignal : (hdr.stamped realm).type = vbusMsgSignal := htype
    generalize List.finRange vbusMaxSubscriptions = slots
    exact Orderly.signals hsignal h
  · exact h

/-- Every call on the bus keeps the invariant. -/
theorem Orderly.busStep (h : Orderly vb) {c : BusCall} (hdisc : Disciplined vb c) :
    Orderly (busStep vb c).1 := by
  cases c with
  | subscribe realm interface member =>
    obtain ⟨hlog, hpending⟩ := subscribe_same vb realm (some realm) interface member
    refine h.pendingSubset hlog ?_
    intro i p hp
    rwa [← hpending]
  | unsubscribe | read => exact h.pendingSubset rfl (fun _ _ hp => hp)
  | emit realm hdr payload =>
    rw [VBus.busStep, sysVbusEmit]
    split
    · exact h
    · exact h.emit hdisc
  | ended realm =>
    refine h.pendingSubset rfl ?_
    intro i p hp
    exact (Option.filter_eq_some_iff.mp hp).1

/-- On a bus whose users keep to the discipline, every reply is delivered to a realm that had an
unanswered call at the replying realm with the serial of the reply, and no call is answered
twice. -/
theorem replies_answer_calls (size : Nat) (calls : List BusCall)
    (h : Along busStep Disciplined (boot size) calls) :
    RepliesAnswer (final busStep (boot size) calls).delivered :=
  have hstep : ∀ vb c, Orderly vb → Disciplined vb c → Orderly (busStep vb c).1 :=
    fun _ _ hvb hdisc => hvb.busStep hdisc
  (@final_invariant_along _ _ _ busStep Disciplined Orderly hstep _ orderly_boot _ h).replies

/-- A header for a message from user space. -/
def request (type : UInt8) (serial replySerial : UInt64) (interface : List UInt8) : VbusHeader where
  magic := vbusMagic
  type := type
  serial := serial
  replySerial := replySerial
  destRealmId := 0
  interface := interface
  member := []
  senderId := 0

/-- Realm 2 calls realm 1, which answers, and then realm 3 calls realm 1 with the same serial. -/
def honestCalls : List BusCall :=
  [.subscribe 1 (some [7]) none, .emit 2 (request vbusMsgCall 1 0 [7]) [],
    .emit 1 (request vbusMsgReturn 1 1 []) [], .emit 3 (request vbusMsgCall 1 0 [7]) [],
    .emit 1 (request vbusMsgError 2 1 []) []]

theorem replies_answer_calls_honest :
    Along busStep Disciplined (boot 1024) honestCalls ∧
      RepliesAnswer (final busStep (boot 1024) honestCalls).delivered :=
  have h : Along busStep Disciplined (boot 1024) honestCalls := by decide +kernel
  ⟨h, replies_answer_calls 1024 honestCalls h⟩

/-- Realm 1 serves an interface and realm 2 another one. Realms 3 and 4 each make their first
call, to realm 1 and to realm 2, and count their serials from one. Realm 2 answers. -/
def twoCallers : List BusCall :=
  [.subscribe 1 (some [7]) none, .subscribe 2 (some [8]) none,
    .emit 3 (request vbusMsgCall 1 0 [7]) [], .emit 4 (request vbusMsgCall 1 0 [8]) [],
    .emit 2 (request vbusMsgReturn 1 1 []) []]

/-- Realm 5, to which nothing was sent, answers the call of realm 3 to realm 1. -/
def forged : List BusCall :=
  [.subscribe 1 (some [7]) none, .emit 3 (request vbusMsgCall 1 0 [7]) [],
    .emit 5 (request vbusMsgReturn 1 1 []) []]

/-- The reply of realm 2 to realm 4 goes to realm 3, which never called realm 2; and a realm
that nobody called gets its reply through as well. -/
theorem reply_to_stranger :
    ((final busStep (boot 1024) twoCallers).delivered.map fun d => (d.hdr.type, d.src, d.dst)) =
        [(vbusMsgCall, 3, 1), (vbusMsgCall, 4, 2), (vbusMsgReturn, 2, 3)] ∧
      ((final busStep (boot 1024) forged).delivered.map fun d => (d.hdr.type, d.src, d.dst)) =
        [(vbusMsgCall, 3, 1), (vbusMsgReturn, 5, 3)] ∧
      ¬RepliesAnswer (final busStep (boot 1024) twoCallers).delivered ∧
      ¬RepliesAnswer (final busStep (boot 1024) forged).delivered := by
  refine ⟨by decide +kernel, by decide +kernel, ?_, ?_⟩
  · intro h
    have hmore : callsOf (final busStep (boot 1024) twoCallers).delivered 3 2 1 <
        repliesOf (final busStep (boot 1024) twoCallers).delivered 3 2 1 := by decide +kernel
    exact absurd (h.once 3 2 1) (Nat.not_le_of_lt hmore)
  · intro h
    have hmore : callsOf (final busStep (boot 1024) forged).delivered 3 5 1 <
        repliesOf (final busStep (boot 1024) forged).delivered 3 5 1 := by decide +kernel
    exact absurd (h.once 3 5 1) (Nat.not_le_of_lt hmore)

end VBus

end Vespera.Ipc
