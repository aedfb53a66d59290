import Vespera.Lib.Run
import Vespera.Signal.Dispatch

/-! # Transparency of signal handling

A user unit runs, makes system calls and is interrupted by timer ticks; signals
arrive at any time. A delivery interrupts the user code in some context, that is
in some registers and under some mask, and the matching `sys_sigreturn` is meant
to bring it back to exactly that context.

The state remembers, for every handler that has not returned yet, the context
its delivery interrupted; `step` answers a `sys_sigreturn` with that context and
the one control really comes back to.

The way back goes through the ordinary system call exit, which sets `rax` to the
return value of `sys_sigreturn` and pops `r15` from the stack, and the address of
the frame is kept in one field per unit. So the context is the interrupted one
only in the case `Quiet` describes: deliveries happen at the exit of system calls
that themselves return `-EINTR`, not at timer ticks and not inside a handler.

Main results:

* `step_inv`: a quiet step keeps the invariant and every return it makes is transparent;
* `exit_transparent_iff`, `tick_not_transparent`: for a single delivery the condition is exact.
-/

namespace Vespera.Signal

open Lib SignalFrame

/-- A handler that is running: the context its delivery interrupted. -/
structure Handler where
  regs : Regs
  mask : UInt64
  frameAddr : UInt64
  /-- The stack pointer in the trap frame at the delivery. -/
  trapRsp : UInt64
deriving Repr, DecidableEq

/-- The unit, and its handlers, innermost first. -/
structure St where
  unit : SigUnit
  handlers : List Handler

/-- What a system call other than `sys_sigreturn` does to the unit. -/
structure CallEffect where
  ret : UInt64
  signalsMasked : UInt64
  signalActions : Nat → SignalAction
  mem : ByteMem → ByteMem

/-- The events of a unit. -/
inductive Ev where
  /-- User code runs up to some point. -/
  | user (regs : Regs) (mem : ByteMem)
  /-- A signal is sent to the unit or to its realm. -/
  | send (sig : Nat) (toRealm : Bool)
  /-- The unit executes `syscall`; the effect is not used for `sys_sigreturn`. -/
  | syscall (effect : CallEffect)
  /-- The timer interrupts the unit. -/
  | tick

/-- A return from a handler: the handler, and the context control comes back to. -/
structure Return where
  handler : Handler
  regs : Regs
  mask : UInt64
deriving Repr, DecidableEq

/-- `SYSCALL_SIGRETURN`. -/
def sysSigreturn : UInt64 := 15

/-- `trap->rax = ret`. -/
def TrapFrame.setRax (t : TrapFrame) (ret : UInt64) : TrapFrame := { t with rax := ret }

@[simp] theorem TrapFrame.setRax_rsp {t : TrapFrame} {ret : UInt64} : (t.setRax ret).rsp = t.rsp :=
  rfl

/-- `on_syscall_exit` and the way back to user mode. -/
def onSyscallExit (u : SigUnit) (handlers : List Handler) (ret : UInt64) : St :=
  let trap := u.trap.setRax ret
  let (u', trap', entered) := dispatch u trap
  { unit := { u' with trap := trap', regs := syscallExit trap' ret u'.mem }
    handlers :=
      if entered then
        ⟨syscallExit trap ret u.mem, u.signalsMasked, frameAddrOf trap, trap.rsp⟩ :: handlers
      else handlers }

/-- `on_timer_tick` between the entry and the exit of the interrupt. -/
def onTimerTick (u : SigUnit) (handlers : List Handler) : St :=
  let frame := interruptEntry u.regs 0x20
  let (u', frame', entered) := dispatch u frame
  { unit := { u' with regs := interruptExit frame' }
    handlers :=
      if entered then ⟨u.regs, u.signalsMasked, frameAddrOf frame, frame.rsp⟩ :: handlers
      else handlers }

/-- The unit after `syscall_entry`. -/
def enterSyscall (u : SigUnit) : SigUnit :=
  { u with mem := pushR15 u.regs u.mem, trap := syscallEntry u.regs u.trap }

/-- One event. A unit whose realm was killed does nothing any more. -/
def step (s : St) (ev : Ev) : St × Option Return :=
  if s.unit.killed then (s, none)
  else match ev with
  | .user regs mem => ({ s with unit := { s.unit with regs := regs, mem := mem } }, none)
  | .send sig toRealm =>
    let u := if sig = sigKill then { s.unit with killed := true } else s.unit
    if toRealm then ({ s with unit := { u with realmPending := u.realmPending ||| bit sig } }, none)
    else ({ s with unit := { u with signalsPending := u.signalsPending ||| bit sig } }, none)
  | .syscall effect =>
    let u := enterSyscall s.unit
    if s.unit.regs.rax = sysSigreturn then
      let (u, ret) := restoreFrame u
      (onSyscallExit u s.handlers.tail ret,
        s.handlers.head?.map fun h => ⟨h, syscallExit u.trap ret u.mem, u.signalsMasked⟩)
    else
      let u := { u with
        mem := effect.mem u.mem, signalsMasked := effect.signalsMasked
        signalActions := effect.signalActions }
      (onSyscallExit u s.handlers effect.ret, none)
  | .tick => (onTimerTick s.unit s.handlers, none)

/-- Control comes back to the interrupted context. -/
def Transparent (r : Option Return) : Prop :=
  ∀ ret ∈ r, ret.regs = ret.handler.regs ∧ ret.mask = ret.handler.mask

/-! ## The condition -/

/-- The frame of a handler, and the stack up to and including the word at the
interrupted stack pointer, are not changed. -/
def Keeps (h : Handler) (m m' : ByteMem) : Prop :=
  ∀ b, h.frameAddr.toNat ≤ b → b < h.trapRsp.toNat + 8 → m' b = m b

/-- The unit as a system call leaves it to `on_syscall_exit`. -/
def afterCall (u : SigUnit) (effect : CallEffect) : SigUnit :=
  { enterSyscall u with
    mem := effect.mem (enterSyscall u).mem
    signalsMasked := effect.signalsMasked
    signalActions := effect.signalActions }

/-- The condition on one event in the state before it.

User code leaves the frames of running handlers alone. No handled signal is
deliverable at a timer tick. Inside a handler a system call leaves mask and
frames alone, and no handled signal is deliverable at its exit; outside, a
handled signal is deliverable only at the exit of a call that returns `-EINTR`
with the stack pointer in the unit's stack. `sys_sigreturn` is called by a handler. -/
def Quiet (s : St) : Ev → Prop
  | .user _ mem => ∀ h ∈ s.handlers, Keeps h s.unit.mem mem
  | .send _ _ => True
  | .tick => ¬ Handled s.unit
  | .syscall effect =>
    if s.unit.regs.rax = sysSigreturn then
      s.handlers ≠ [] ∧ ∀ h ∈ s.handlers, Keeps h s.unit.mem (enterSyscall s.unit).mem
    else if s.handlers = [] then
      Handled (afterCall s.unit effect) →
        effect.ret = eintr ∧ InStack s.unit.stack (s.unit.regs.rsp - 8)
    else
      ¬ Handled (afterCall s.unit effect) ∧ effect.signalsMasked = s.unit.signalsMasked ∧
        ∀ h ∈ s.handlers, Keeps h s.unit.mem (afterCall s.unit effect).mem

/-! ## Frames -/

/-- The frame of handler `h` is where the unit remembers it and holds the
registers `trap`; undoing its deferral gives the mask of `h`. -/
structure FrameAt (u : SigUnit) (h : Handler) (trap : TrapFrame) : Prop where
  addr : u.pendingSignalFrameAddr = h.frameAddr
  base_le : u.stack.base.toNat ≤ h.frameAddr.toNat
  frame_le : h.frameAddr.toNat + size ≤ h.trapRsp.toNat
  inStack : InStack u.stack h.trapRsp
  rsp : trap.rsp = h.trapRsp
  frame : ∃ sig deferred,
    read u.mem h.frameAddr.toNat = ofTrap trap sig deferred ∧
      (if deferred ≠ 0 then u.signalsMasked &&& ~~~(bit (sig.toNat % 64)) else u.signalsMasked) =
        h.mask

/-- The unit may have moved on, but the frame and what leads to it have not. -/
structure Later (h : Handler) (u u' : SigUnit) : Prop where
  addr : u'.pendingSignalFrameAddr = u.pendingSignalFrameAddr
  stack : u'.stack = u.stack
  mask : u'.signalsMasked = u.signalsMasked
  mem : Keeps h u.mem u'.mem

variable {u u' : SigUnit} {h : Handler} {trap trap' : TrapFrame} {ret : UInt64}

theorem SameUser.later (h : Handler) (hsame : SameUser u u') : Later h u u' := by
  refine ⟨hsame.pendingSignalFrameAddr, hsame.stack, hsame.signalsMasked, ?_⟩
  intro b _ _
  rw [hsame.mem]

section

variable (hat : FrameAt u h trap)

include hat

theorem FrameAt.later (hlater : Later h u u') : FrameAt u' h trap := by
  obtain ⟨sig, deferred, hread, hm⟩ := hat.frame
  have hle := hat.frame_le
  refine ⟨hlater.addr.trans hat.addr, ?_, hle, ?_, hat.rsp, sig, deferred, ?_, ?_⟩
  · rw [hlater.stack]
    exact hat.base_le
  · rw [hlater.stack]
    exact hat.inStack
  · rw [← hread]
    apply read_congr
    intro b hb hb'
    exact hlater.mem b hb (by omega)
  · rw [hlater.mask]
    exact hm

/-- The word that the exit path pops into `r15` is kept as well. -/
theorem FrameAt.load_rsp (hlater : Later h u u') :
    u'.mem.load 8 trap.rsp.toNat = u.mem.load 8 trap.rsp.toNat := by
  have hle := hat.frame_le
  apply ByteMem.load_congr
  intro b hb hb'
  rw [hat.rsp] at hb hb'
  exact hlater.mem b (by omega) hb'

/-- `signal_restore_frame` brings back the registers of the frame and the mask. -/
theorem FrameAt.restoreFrame : (restoreFrame u).2 = eintr ∧ SameRegs (restoreFrame u).1.trap trap ∧
      (restoreFrame u).1.signalsMasked = h.mask ∧ (restoreFrame u).1.stack = u.stack ∧
      (restoreFrame u).1.mem = u.mem := by
  obtain ⟨sig, deferred, hread, hm⟩ := hat.frame
  have hle := hat.frame_le
  have hin := hat.inStack
  have hbase := hat.base_le
  have hwrap := u.stack.no_wrap
  have hsz : size = 152 := rfl
  -- the range check passes
  have hcheck : ¬ (u.pendingSignalFrameAddr < u.stack.base ∨
      u.pendingSignalFrameAddr + UInt64.ofNat size > u.stack.base + u.stack.size) := by
    have hof : (UInt64.ofNat size).toNat = 152 := rfl
    have htop := hin.2
    have hlt : h.frameAddr.toNat + 152 < 2 ^ 64 := by omega
    rw [hat.addr, UInt64.lt_iff_toNat_lt, gt_iff_lt, UInt64.lt_iff_toNat_lt, UInt64.toNat_add,
      UInt64.toNat_add, hof, Nat.mod_eq_of_lt hwrap, Nat.mod_eq_of_lt hlt]
    omega
  unfold Signal.restoreFrame
  rw [if_neg hcheck, hat.addr, hread]
  exact ⟨rfl, toTrap_ofTrap, hm, rfl, rfl⟩

end

/-- A delivery leaves such a frame. -/
theorem dispatch_frameAt (regs : Regs)
    (hin : InStack u.stack trap.rsp) (h : dispatch u trap = (u', trap', true)) :
    FrameAt u' ⟨regs, u.signalsMasked, frameAddrOf trap, trap.rsp⟩ trap ∧ u'.stack = u.stack ∧
      ∀ b, trap.rsp.toNat ≤ b → u'.mem b = u.mem b := by
  obtain ⟨sig, action, u1, hlt, hsaved, hmem, hstack, hmask⟩ := dispatch_handled hin h
  have hsig : (UInt32.ofNat sig).toNat = sig := by
    rw [UInt32.toNat_ofNat', Nat.mod_eq_of_lt (by omega)]
  refine ⟨⟨hsaved.addr, ?_, frameAddrOf_le hin, ?_, rfl, _, _, hsaved.frame, ?_⟩, ?_, ?_⟩
  · rw [hsaved.stack]
    exact hsaved.base_le
  · rw [hsaved.stack, hstack]
    exact hin
  · rw [hsig, Nat.mod_eq_of_lt hlt, hsaved.masked]
    exact hmask
  · rw [hsaved.stack, hstack]
  · intro b hb
    rw [hsaved.above b hb, hmem]

/-! ## The invariant -/

/-- The running handler's frame leads back to its context. -/
def Active (u : SigUnit) (h : Handler) : Prop :=
  ∃ trap, FrameAt u h trap ∧ h.regs = syscallExit trap eintr u.mem

/-- At most one handler runs, and its frame is intact. -/
def Inv (s : St) : Prop := s.handlers = [] ∨ ∃ h, s.handlers = [h] ∧ Active s.unit h

theorem Active.later (hact : Active u h) (hlater : Later h u u') : Active u' h := by
  obtain ⟨trap, hat, hregs⟩ := hact
  refine ⟨trap, hat.later hlater, ?_⟩
  rw [hregs, syscallExit, syscallExit, hat.load_rsp hlater]

/-- Entering a handler needs a deliverable handled signal. -/
theorem handled_of_dispatch (h : dispatch u trap = (u', trap', true)) : Handled u := by
  by_contra hno
  have hfalse := (dispatch_unhandled trap hno).1
  rw [h] at hfalse
  exact absurd (Prod.mk.inj hfalse).2 (by decide)

/-- A delivery at the exit of a system call: the interrupted context is the way
back with the call's own return value. -/
theorem onSyscallExit_delivers (handlers : List Handler) (hin : InStack u.stack u.trap.rsp)
    (hd : dispatch u (u.trap.setRax ret) = (u', trap', true)) :
    ∃ h, (onSyscallExit u handlers ret).handlers = h :: handlers ∧
      FrameAt (onSyscallExit u handlers ret).unit h (u.trap.setRax ret) ∧
      h.regs = syscallExit (u.trap.setRax ret) ret (onSyscallExit u handlers ret).unit.mem := by
  have hin' : InStack u.stack (u.trap.setRax ret).rsp := hin
  obtain ⟨hat, -, habove⟩ := dispatch_frameAt (syscallExit (u.trap.setRax ret) ret u.mem) hin' hd
  have hword : u'.mem.load 8 u.trap.rsp.toNat = u.mem.load 8 u.trap.rsp.toNat := by
    apply ByteMem.load_congr
    intro b hb _
    exact habove b hb
  simp only [onSyscallExit, hd]
  refine ⟨_, rfl, { hat with }, ?_⟩
  rw [syscallExit, syscallExit, TrapFrame.setRax_rsp, hword]

/-- The exit of a system call outside handlers. -/
theorem onSyscallExit_inv (hret : Handled u → ret = eintr ∧ InStack u.stack u.trap.rsp) :
    Inv (onSyscallExit u [] ret) := by
  rcases hd : dispatch u (u.trap.setRax ret) with ⟨u', trap', entered⟩
  cases entered with
  | false =>
    refine .inl ?_
    simp [onSyscallExit, hd]
  | true =>
    obtain ⟨rfl, hin⟩ := hret (handled_of_dispatch hd)
    obtain ⟨h, hone, hat, hregs⟩ := onSyscallExit_delivers [] hin hd
    exact .inr ⟨h, hone, _, hat, hregs⟩

/-- The exit of a system call inside a handler, with nothing to deliver. -/
theorem onSyscallExit_active (hno : ¬ Handled u) (hact : Active u h) : Inv
    (onSyscallExit u [h] ret) := by
  obtain ⟨hres, hsame⟩ := dispatch_unhandled (u.trap.setRax ret) hno
  rcases hd : dispatch u (u.trap.setRax ret) with ⟨u', trap', entered⟩
  rw [hd] at hres hsame
  obtain ⟨rfl, rfl⟩ := Prod.mk.inj hres
  simp only [onSyscallExit, hd]
  refine .inr ⟨h, rfl, ?_⟩
  have hlater := hsame.later h
  exact hact.later { hlater with }

/-- A `sys_sigreturn` that finds the frame of the innermost handler comes back
to the frame's registers, with `rax` set to `-EINTR`, and to the handler's mask. -/
theorem sigreturn_return {s : St} {effect : CallEffect}
    (halive : s.unit.killed = false) (hrax : s.unit.regs.rax = sysSigreturn)
    (hhead : s.handlers.head? = some h) (hat : FrameAt (enterSyscall s.unit) h trap) :
    (step s (.syscall effect)).2 =
      some ⟨h, syscallExit trap eintr (enterSyscall s.unit).mem, h.mask⟩ := by
  obtain ⟨hret, hsame, hmask, -, hmem⟩ := hat.restoreFrame
  unfold step
  rw [if_neg (by rw [halive]; decide)]
  dsimp only
  rw [if_pos hrax, hhead]
  dsimp only [Option.map]
  rw [hret, hmask, hmem, syscallExit_congr hsame rfl]

/-- Step lemma: a quiet event keeps the invariant, and a return is transparent. -/
theorem step_inv {s : St} {ev : Ev} (hinv : Inv s) (hq : Quiet s ev) :
    Inv (step s ev).1 ∧ Transparent (step s ev).2 := by
  have hnone : Transparent none := by
    intro r hr
    cases hr
  by_cases hkilled : s.unit.killed
  · unfold step
    rw [if_pos hkilled]
    exact ⟨hinv, hnone⟩
  unfold step
  rw [if_neg hkilled]
  cases ev with
  | user regs mem =>
    refine ⟨?_, hnone⟩
    rcases hinv with hnil | ⟨h, hone, hact⟩
    · exact .inl hnil
    · have hkeep : Keeps h s.unit.mem mem := hq h (by rw [hone]; exact List.mem_singleton_self h)
      exact .inr ⟨h, hone, hact.later ⟨rfl, rfl, rfl, hkeep⟩⟩
  | send sig toRealm =>
    have hsent : ∀ u, u.pendingSignalFrameAddr = s.unit.pendingSignalFrameAddr →
        u.stack = s.unit.stack → u.signalsMasked = s.unit.signalsMasked → u.mem = s.unit.mem →
        Inv { s with unit := u } := by
      intro u haddr hstack hmask hmem
      rcases hinv with hnil | ⟨h, hone, hact⟩
      · exact .inl hnil
      · refine .inr ⟨h, hone, hact.later ⟨haddr, hstack, hmask, ?_⟩⟩
        intro b _ _
        rw [hmem]
    dsimp only
    split_ifs
    all_goals
      refine ⟨hsent _ ?_ ?_ ?_ ?_, hnone⟩
      all_goals rfl
  | tick =>
    -- nothing handled is deliverable, so the tick is invisible
    refine ⟨?_, hnone⟩
    obtain ⟨hres, hsame⟩ := dispatch_unhandled (interruptEntry s.unit.regs 0x20) hq
    rcases hd : dispatch s.unit (interruptEntry s.unit.regs 0x20) with ⟨u', frame', entered⟩
    rw [hd] at hres hsame
    obtain ⟨rfl, rfl⟩ := Prod.mk.inj hres
    simp only [onTimerTick, hd]
    rcases hinv with hnil | ⟨h, hone, hact⟩
    · exact .inl hnil
    · have hlater := hsame.later h
      exact .inr ⟨h, hone, hact.later { hlater with }⟩
  | syscall effect =>
    dsimp only [Quiet] at hq
    dsimp only
    split
    · -- sys_sigreturn
      rename_i hrax
      rw [if_pos hrax] at hq
      obtain ⟨hne, hkeep⟩ := hq
      rcases hinv with hnil | ⟨h, hone, hact⟩
      · exact absurd hnil hne
      have hlater : Later h s.unit (enterSyscall s.unit) :=
        ⟨rfl, rfl, rfl, hkeep h (by rw [hone]; exact List.mem_singleton_self h)⟩
      obtain ⟨trap, hat, hregs⟩ := hact.later hlater
      obtain ⟨hret, hsame, hmask, hstack, hmem⟩ := hat.restoreFrame
      have hin : InStack (restoreFrame (enterSyscall s.unit)).1.stack
          (restoreFrame (enterSyscall s.unit)).1.trap.rsp := by
        rw [hstack, hsame.rsp, hat.rsp]
        exact hat.inStack
      rw [hone, hret]
      refine ⟨onSyscallExit_inv fun _ => ⟨rfl, hin⟩, ?_⟩
      intro r hr
      obtain rfl : _ = r := by simpa using hr
      refine ⟨?_, hmask⟩
      rw [hregs, hmem]
      exact syscallExit_congr hsame rfl
    rename_i hrax
    rw [if_neg hrax] at hq
    refine ⟨?_, hnone⟩
    rcases hinv with hnil | ⟨h, hone, hact⟩
    · rw [if_pos hnil] at hq
      rw [hnil]
      exact onSyscallExit_inv hq
    rw [if_neg (by rw [hone]; exact List.cons_ne_nil h [])] at hq
    obtain ⟨hno, hmask, hkeep⟩ := hq
    rw [hone]
    refine onSyscallExit_active hno (hact.later ⟨rfl, rfl, hmask, ?_⟩)
    exact hkeep h (by rw [hone]; exact List.mem_singleton_self h)

/-! ## Exactly when -/

/-- In `s'` the handler entered last in `s` calls `sys_sigreturn`: its frame, the
mask and the remembered address are as the delivery left them. -/
structure Resumes (s s' : St) : Prop where
  handlers : s'.handlers = s.handlers
  alive : s'.unit.killed = false
  rax : s'.unit.regs.rax = sysSigreturn
  later : ∀ h ∈ s.handlers.head?, Later h s.unit (enterSyscall s'.unit)

/-- After a delivery at the exit of a system call, the return is transparent
iff the call returned `-EINTR`. -/
theorem exit_transparent_iff {handlers : List Handler} {s : St}
    {effect : CallEffect} (hin : InStack u.stack u.trap.rsp)
    (hentered : (onSyscallExit u handlers ret).handlers ≠ handlers)
    (hres : Resumes (onSyscallExit u handlers ret) s) :
    Transparent (step s (.syscall effect)).2 ↔ ret = eintr := by
  rcases hd : dispatch u (u.trap.setRax ret) with ⟨u', trap', entered⟩
  cases entered with
  | false => exact absurd (by simp [onSyscallExit, hd]) hentered
  | true =>
    obtain ⟨h, hhandlers, hat, hregs⟩ := onSyscallExit_delivers handlers hin hd
    have hlater := hres.later h (by rw [hhandlers]; rfl)
    have hhead : s.handlers.head? = some h := by
      rw [hres.handlers, hhandlers]
      rfl
    rw [sigreturn_return hres.alive hres.rax hhead (hat.later hlater)]
    have hback : syscallExit (u.trap.setRax ret) eintr (enterSyscall s.unit).mem =
        { h.regs with rax := eintr } := by
      rw [hregs, syscallExit, syscallExit, hat.load_rsp hlater]
    constructor
    · intro htrans
      have heq := (htrans _ rfl).1
      -- compare rax on both sides
      have hrax : eintr = h.regs.rax := congrArg Regs.rax heq
      rw [hrax, hregs]
      rfl
    rintro rfl r hr
    obtain rfl : _ = r := by simpa using hr
    refine ⟨?_, rfl⟩
    rw [hback, hregs]
    rfl

/-- A delivery at a timer tick is never transparent: the exit path of the system
call leaves the stack pointer eight bytes too high. -/
theorem tick_not_transparent {handlers : List Handler} {s : St} {effect : CallEffect}
    (hin : InStack u.stack u.regs.rsp) (hentered : (onTimerTick u handlers).handlers ≠ handlers)
    (hres : Resumes (onTimerTick u handlers) s) : ¬ Transparent (step s (.syscall effect)).2 := by
  rcases hd : dispatch u (interruptEntry u.regs 0x20) with ⟨u', frame', entered⟩
  cases entered with
  | false => exact absurd (by simp [onTimerTick, hd]) hentered
  | true =>
    have hin' : InStack u.stack (interruptEntry u.regs 0x20).rsp := hin
    obtain ⟨hat, -, -⟩ := dispatch_frameAt u.regs hin' hd
    have hhandlers : (onTimerTick u handlers).handlers =
        ⟨u.regs, u.signalsMasked, frameAddrOf (interruptEntry u.regs 0x20), u.regs.rsp⟩ ::
          handlers := by
      simp only [onTimerTick, hd]
      rfl
    have hat' : FrameAt (onTimerTick u handlers).unit
        ⟨u.regs, u.signalsMasked, frameAddrOf (interruptEntry u.regs 0x20), u.regs.rsp⟩
        (interruptEntry u.regs 0x20) := by
      simp only [onTimerTick, hd]
      exact { hat with }
    have hlater := hres.later _ (by rw [hhandlers]; rfl)
    have hhead := congrArg List.head? (hres.handlers.trans hhandlers)
    rw [sigreturn_return hres.alive hres.rax hhead (hat'.later hlater)]
    intro htrans
    have heq := congrArg Regs.rsp (htrans _ rfl).1
    have hsp : u.regs.rsp + 8 = u.regs.rsp := heq
    simp at hsp

/-- Signal handling is transparent along every run whose events are all quiet.
The condition is exact for single deliveries: a handler entered at the exit of a
system call returns to the interrupted context iff the call returned `-EINTR`,
and one entered at a timer tick never does. -/
theorem signal_transparency (s : St) :
    (∀ evs : List Ev, s.handlers = [] → Along step Quiet s evs →
      ∀ r ∈ answers step s evs, Transparent r) ∧
    (∀ (u : SigUnit) (handlers : List Handler) (ret : UInt64) (effect : CallEffect),
      InStack u.stack u.trap.rsp → (onSyscallExit u handlers ret).handlers ≠ handlers →
      Resumes (onSyscallExit u handlers ret) s →
      (Transparent (step s (.syscall effect)).2 ↔ ret = eintr)) ∧
    (∀ (u : SigUnit) (handlers : List Handler) (effect : CallEffect),
      InStack u.stack u.regs.rsp → (onTimerTick u handlers).handlers ≠ handlers →
      Resumes (onTimerTick u handlers) s → ¬ Transparent (step s (.syscall effect)).2) := by
  refine ⟨?_, ?_, ?_⟩
  · intro evs hnil hquiet
    have hinv : Inv s := .inl hnil
    exact answers_forall_along (fun _ _ => step_inv) hinv hquiet
  · intro u handlers ret effect hin hentered hres
    exact exit_transparent_iff hin hentered hres
  · intro u handlers effect hin hentered hres
    exact tick_not_transparent hin hentered hres

/-! ## Two runs -/

section Demo

/-- Registers of a running program. -/
def demoRegs : Regs where
  rax := 0
  rbx := 7
  rcx := 0
  rdx := 0
  rbp := 0
  rsi := 0
  rdi := 0
  r8 := 0
  r9 := 0
  r10 := 0
  r11 := 0
  r12 := 0
  r13 := 0
  r14 := 0
  r15 := 5
  rip := 0x400000
  rsp := 0x7FFE00008000
  rflags := 0x202

/-- A unit with a handler for signal 10 and a 64 KiB stack. -/
def demoUnit : SigUnit where
  regs := demoRegs
  trap := interruptEntry demoRegs 0
  stack := ⟨0x7FFE00000000, 0x10000, by decide, by decide⟩
  mem := fun _ => 0
  signalsPending := 0
  realmPending := 0
  signalsMasked := 0
  signalActions n := if n = 10 then ⟨.handler, 0x401000, 0⟩ else ⟨.default, 0, 0⟩
  pendingSignalFrameAddr := 0
  killed := false

/-- A call without side effects. -/
def demoCall (ret : UInt64) : CallEffect := ⟨ret, 0, demoUnit.signalActions, id⟩

/-- From a state at the start of the handler: the handler has done nothing but go to the trampoline,
which comes to its `syscall`. The stack pointer is at the frame by then: the word below it has been
popped, by the handler's return or already by the exit from a system call. -/
def demoHandler (s : St) : Ev :=
  .user { demoRegs with
    rax := sysSigreturn, rip := 0x7FFF80000009, rsp := s.unit.pendingSignalFrameAddr } s.unit.mem

/-- Signal 10 arrives, is delivered by `ev`, and its handler returns. -/
def demoRun (ev : Ev) : List Ev :=
  [.send 10 false, ev, demoHandler (final step ⟨demoUnit, []⟩ [.send 10 false, ev]),
    .syscall (demoCall 0)]

/-- Delivered at a timer tick, the signal costs the program its registers. -/
theorem tick_delivery_not_transparent :
    ∃ r ∈ answers step ⟨demoUnit, []⟩ (demoRun .tick), ¬ Transparent r := by
  refine ⟨((answers step ⟨demoUnit, []⟩ (demoRun .tick)).getD 3 none), ?_, ?_⟩
  · exact List.mem_of_getElem? (i := 3) rfl
  · intro htrans
    have heq := htrans _ rfl
    exact absurd (congrArg Regs.rsp heq.1) (by decide +kernel)

/-- Delivered at the exit of a call that returns `-EINTR`, it does not. -/
theorem signal_transparency_eintr :
    ∀ r ∈ answers step ⟨demoUnit, []⟩ (demoRun (.syscall (demoCall eintr))), Transparent r := by
  refine (signal_transparency _).1 _ rfl ⟨trivial, ?_, ?_, ?_, trivial⟩
  · intro _
    exact ⟨rfl, by decide +kernel⟩
  · intro h _ b _ _
    rfl
  refine ⟨List.cons_ne_nil _ _, ?_⟩
  intro h hh b hb _
  obtain rfl := List.mem_singleton.mp hh
  apply ByteMem.store_of_not_mem
  right
  refine le_trans ?_ hb
  decide +kernel

end Demo

end Vespera.Signal
