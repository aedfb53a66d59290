import Vespera.Klib.Result
import Vespera.Signal.TrapFrame

/-! # Signal delivery and sigreturn

`signal_dispatch`, `signal_setup_userframe`, `signal_restore_frame` of
`kernel/signals/signal.cpp` for one user unit, and the two places that dispatch:
`on_timer_tick` and `on_syscall_exit` of `kernel/scheduling/scheduler.cpp`.

The kernel writes signal frames through its own window onto the pages of the
unit's stack, so only bytes inside the stack reach the memory the user sees.

Main results:

* `dispatch_unhandled`: without a deliverable handled signal nothing the user sees changes;
* `dispatch_handled`: a delivery leaves a frame of the interrupted registers on
  the stack, remembers its address and masks the signal.
-/

namespace Vespera.Signal

open Lib Klib SignalFrame

/-- The stack of a unit: a range of user addresses above the first page. -/
structure UserStack where
  base : UInt64
  size : UInt64
  base_ge : 4096 ≤ base.toNat
  no_wrap : base.toNat + size.toNat < 2 ^ 64

inductive Disposition where
  | default
  | ignore
  | handler
deriving Repr, DecidableEq

/-- `struct SignalAction`: the union of the two handler pointers is one address. -/
structure SignalAction where
  disposition : Disposition
  handler : UInt64
  flags : UInt32
deriving Repr, DecidableEq

def saSiginfo : UInt32 := 4
def saNodefer : UInt32 := 0x40000000

inductive DefaultAction where
  | terminate
  | terminateCore
  | ignore
deriving Repr, DecidableEq

def defaultActionFor (sig : Nat) : DefaultAction :=
  if sig ∈ [8, 4, 11, 7, 31] then .terminateCore
  else if sig ∈ [13, 17] then .ignore
  else .terminate

def sigKill : Nat := 9

/-- The fields of a user unit (and of its realm) that signals work on. -/
structure SigUnit where
  /-- The registers while the unit runs in user mode. -/
  regs : Regs
  /-- `context.current_trap_frame`. -/
  trap : TrapFrame
  stack : UserStack
  /-- The user's memory. -/
  mem : ByteMem
  signalsPending : UInt64
  realmPending : UInt64
  signalsMasked : UInt64
  signalActions : Nat → SignalAction
  pendingSignalFrameAddr : UInt64
  /-- Set once the realm has been killed. -/
  killed : Bool
  /-- What the kernel has written through its window onto the stack: the distance from
  `user_stack`, and the length. -/
  kernelWrites : List (Nat × Nat) := []

/-- `1ULL << n`. -/
def bit (n : Nat) : UInt64 := UInt64.ofNat (1 <<< n)

variable (u : SigUnit)

/-- `signals & ~masked`, per source. -/
def unitDeliverable : UInt64 := u.signalsPending &&& ~~~u.signalsMasked
def realmDeliverable : UInt64 := u.realmPending &&& ~~~u.signalsMasked

/-- The signal `signal_dispatch` picks: the lowest deliverable one (`__builtin_ctzll`). -/
def nextSignal : Option Nat :=
  (List.range 64).find? fun n => (unitDeliverable u ||| realmDeliverable u).toNat.testBit n

/-- Write `len` bytes through the kernel's window, at the distance of the user address `addr` from
the start of the stack. There is no other check. The user sees the bytes that are in the stack; the
others go to frames behind it, which are not the user's memory. -/
def SigUnit.stackWrite (addr : UInt64) (len : Nat) (m : ByteMem) : SigUnit :=
  { u with
    mem := fun b =>
      if u.stack.base.toNat ≤ b ∧ b < u.stack.base.toNat + u.stack.size.toNat then m b
      else u.mem b
    kernelWrites := ((addr - u.stack.base).toNat, len) :: u.kernelWrites }

def signalTrampolineVaddr : UInt64 := 0x00007FFF80000000

/-- The siginfo of `signal_setup_userframe`: `si_signo`, then zeros (24 bytes). -/
def writeSiginfo (m : ByteMem) (a sig : Nat) : ByteMem := m.storeWords a [sig, 0, 0]

/-- Push the trampoline and enter the handler. The flag says whether the frame
was completed. -/
def enterHandler (sig : Nat) (action : SignalAction) (trap : TrapFrame)
    (frameAddr usp : UInt64) (siginfo : Option UInt64) : SigUnit × TrapFrame × Bool :=
  let usp := usp - 8
  if usp < u.stack.base then (u, trap, false)
  else
    let u := u.stackWrite usp 8 (u.mem.store 8 usp.toNat signalTrampolineVaddr.toNat)
    let trap := { trap with
      rsp := usp, rip := action.handler, rdi := UInt64.ofNat sig
      rflags := trap.rflags &&& ~~~(bit 8) }
    let trap := match siginfo with
      | some a => { trap with rsi := a, rdx := 0 }
      | none => trap
    ({ u with pendingSignalFrameAddr := frameAddr }, trap, true)

/-- Where `signal_setup_userframe` puts the frame. -/
def frameAddrOf (trap : TrapFrame) : UInt64 := (trap.rsp - UInt64.ofNat size) &&& ~~~0xF

/-- `was_deferred`. -/
def deferredFlag (action : SignalAction) : UInt32 := if action.flags &&& saNodefer = 0 then 1 else 0

/-- `signal_setup_userframe`. -/
def setupUserframe (sig : Nat) (action : SignalAction) (trap : TrapFrame) :
    SigUnit × TrapFrame × Bool :=
  let frameAddr := frameAddrOf trap
  if frameAddr < u.stack.base then (u, trap, false)
  else
    let frame := ofTrap trap (UInt32.ofNat sig) (deferredFlag action)
    let u := u.stackWrite frameAddr size (frame.write u.mem frameAddr.toNat)
    if action.flags &&& saSiginfo ≠ 0 then
      let usp := (frameAddr - 24) &&& ~~~0xF
      if usp < u.stack.base then (u, trap, false)
      else
        let u := u.stackWrite usp 24 (writeSiginfo u.mem usp.toNat sig)
        enterHandler u sig action trap frameAddr usp (some usp)
    else enterHandler u sig action trap frameAddr frameAddr none

/-- Clear the pending bit where the signal came from. -/
def clearPending (sig : Nat) : SigUnit :=
  if (unitDeliverable u).toNat.testBit sig then
    { u with signalsPending := u.signalsPending &&& ~~~(bit sig) }
  else { u with realmPending := u.realmPending &&& ~~~(bit sig) }

def signalDefault (sig : Nat) : SigUnit :=
  match defaultActionFor sig with
  | .ignore => u
  | .terminate | .terminateCore => { u with killed := true }

/-- `signal_dispatch` with a trap frame; the flag says whether a handler was entered. -/
def dispatch (trap : TrapFrame) : SigUnit × TrapFrame × Bool :=
  match nextSignal u with
  | none => (u, trap, false)
  | some sig =>
    let action := u.signalActions sig
    match action.disposition with
    | .default => (signalDefault (clearPending u sig) sig, trap, false)
    | .ignore => (clearPending u sig, trap, false)
    | .handler =>
      let u := clearPending u sig
      let u :=
        if action.flags &&& saNodefer = 0 then
          { u with signalsMasked := u.signalsMasked ||| bit sig }
        else u
      setupUserframe u sig action trap

/-- The return value of an interrupted call, `-EINTR`. -/
def eintr : UInt64 := UInt64.ofInt Error.intr.toErrno
def efault : UInt64 := UInt64.ofInt Error.fault.toErrno

/-- `signal_restore_frame`, which works on `current_trap_frame`. -/
def restoreFrame : SigUnit × UInt64 :=
  let frameAddr := u.pendingSignalFrameAddr
  let size := UInt64.ofNat size
  if frameAddr < u.stack.base ∨ frameAddr + size > u.stack.base + u.stack.size then (u, efault)
  else
    let frame := read u.mem frameAddr.toNat
    ({ u with
      trap := frame.toTrap u.trap
      -- the processor takes a shift count modulo 64
      signalsMasked :=
        if frame.wasDeferred ≠ 0 then u.signalsMasked &&& ~~~(bit (frame.signum.toNat % 64))
        else u.signalsMasked }, eintr)

variable {u}

/-! ## Bits -/

theorem bit_testBit {n k : Nat} (hn : n < 64) : (bit n).toNat.testBit k = decide (k = n) := by
  have hlt : 1 <<< n < 2 ^ 64 := by
    rw [Nat.one_shiftLeft]
    exact Nat.pow_lt_pow_right (by omega) hn
  have hval : (bit n).toNat = 2 ^ n := by
    rw [bit, UInt64.toNat_ofNat', Nat.mod_eq_of_lt hlt, Nat.one_shiftLeft]
  rw [hval, Nat.testBit_two_pow]
  exact decide_eq_decide.mpr eq_comm

/-- Two words with the same bits are equal. -/
theorem uint64_eq_of_testBit {x y : UInt64}
    (h : ∀ k, k < 64 → x.toNat.testBit k = y.toNat.testBit k) : x = y := by
  apply UInt64.toNat_inj.mp
  apply Nat.eq_of_testBit_eq
  intro k
  by_cases hk : k < 64
  · exact h k hk
  · have hpow : 2 ^ 64 ≤ 2 ^ k := Nat.pow_le_pow_right (by omega) (by omega)
    rw [Nat.testBit_lt_two_pow (lt_of_lt_of_le x.toNat_lt hpow),
      Nat.testBit_lt_two_pow (lt_of_lt_of_le y.toNat_lt hpow)]

theorem not_testBit {x : UInt64} {k : Nat} (hk : k < 64) :
    (~~~x).toNat.testBit k = !x.toNat.testBit k := by
  have : (~~~x).toBitVec.getLsbD k = !x.toBitVec.getLsbD k := by
    rw [UInt64.toBitVec_not, BitVec.getLsbD_not]
    simp [hk]
  exact this

/-- Setting a clear bit and clearing it again. -/
theorem or_bit_and_not_bit {x : UInt64} {n : Nat} (hn : n < 64)
    (hclear : x.toNat.testBit n = false) : (x ||| bit n) &&& ~~~(bit n) = x := by
  apply uint64_eq_of_testBit
  intro k hk
  rw [UInt64.toNat_and, UInt64.toNat_or, Nat.testBit_and, Nat.testBit_or, not_testBit hk,
    bit_testBit hn]
  by_cases hkn : k = n
  · subst hkn
    simp [hclear]
  · simp [hkn]

variable {u : SigUnit}

theorem nextSignal_some {n : Nat} (h : nextSignal u = some n) :
    n < 64 ∧ u.signalsMasked.toNat.testBit n = false := by
  have hlt : n < 64 := by
    simpa using List.mem_of_find?_eq_some h
  have hbit := List.find?_some h
  refine ⟨hlt, ?_⟩
  rw [UInt64.toNat_or, Nat.testBit_or, unitDeliverable, realmDeliverable, UInt64.toNat_and,
    UInt64.toNat_and, Nat.testBit_and, Nat.testBit_and, not_testBit hlt] at hbit
  cases hm : u.signalsMasked.toNat.testBit n
  · rfl
  · simp [hm] at hbit

/-! ## What dispatch does -/

/-- A signal with a handler is deliverable. -/
def Handled (u : SigUnit) : Prop :=
  ∃ sig ∈ nextSignal u, (u.signalActions sig).disposition = .handler

instance (u : SigUnit) : Decidable (Handled u) :=
  match h : nextSignal u with
  | none => isFalse (by simp [Handled, h])
  | some sig =>
    decidable_of_iff ((u.signalActions sig).disposition = .handler) (by simp [Handled, h])

/-- The parts of a unit that a signal without a handler leaves alone. -/
structure SameUser (u u' : SigUnit) : Prop where
  mem : u'.mem = u.mem
  stack : u'.stack = u.stack
  signalsMasked : u'.signalsMasked = u.signalsMasked
  pendingSignalFrameAddr : u'.pendingSignalFrameAddr = u.pendingSignalFrameAddr

theorem clearPending_same (u : SigUnit) (sig : Nat) : SameUser u (clearPending u sig) := by
  unfold clearPending
  split <;> exact ⟨rfl, rfl, rfl, rfl⟩

theorem signalDefault_same {sig : Nat} : SameUser u (signalDefault u sig) := by
  unfold signalDefault
  split <;> exact ⟨rfl, rfl, rfl, rfl⟩

theorem SameUser.trans {u' u'' : SigUnit} (h : SameUser u u') (h' : SameUser u' u'') :
    SameUser u u'' :=
  ⟨h'.mem.trans h.mem, h'.stack.trans h.stack, h'.signalsMasked.trans h.signalsMasked,
    h'.pendingSignalFrameAddr.trans h.pendingSignalFrameAddr⟩

/-- Without a deliverable handled signal the frame and the user's view stay. -/
theorem dispatch_unhandled (trap : TrapFrame) (h : ¬ Handled u) :
    (dispatch u trap).2 = (trap, false) ∧ SameUser u (dispatch u trap).1 := by
  unfold dispatch
  cases hnext : nextSignal u with
  | none => exact ⟨rfl, rfl, rfl, rfl, rfl⟩
  | some sig =>
    dsimp only
    cases hdisp : (u.signalActions sig).disposition with
    | default =>
      exact ⟨rfl, (clearPending_same u sig).trans signalDefault_same⟩
    | ignore => exact ⟨rfl, clearPending_same u sig⟩
    | handler => exact absurd ⟨sig, hnext, hdisp⟩ h

/-- A stack pointer inside the unit's stack, with the word above it. -/
def InStack (stack : UserStack) (sp : UInt64) : Prop :=
  stack.base.toNat ≤ sp.toNat ∧ sp.toNat + 8 ≤ stack.base.toNat + stack.size.toNat

instance (stack : UserStack) (sp : UInt64) : Decidable (InStack stack sp) := by
  unfold InStack; infer_instance

/-- Going down by `n` and aligning never passes the start when there is room. -/
theorem sub_align_le {sp : UInt64} {n : Nat} (hn : n ≤ sp.toNat) (hlt : n < 2 ^ 64) :
    ((sp - UInt64.ofNat n) &&& ~~~0xF).toNat + n ≤ sp.toNat := by
  have hof : (UInt64.ofNat n).toNat = n := by
    rw [UInt64.toNat_ofNat', Nat.mod_eq_of_lt hlt]
  have hsub : (sp - UInt64.ofNat n).toNat = sp.toNat - n := by
    rw [UInt64.toNat_sub_of_le _ _ (by rw [UInt64.le_iff_toNat_le, hof]; exact hn), hof]
  have hand : ((sp - UInt64.ofNat n) &&& ~~~0xF).toNat ≤ (sp - UInt64.ofNat n).toNat := by
    rw [UInt64.toNat_and]
    exact Nat.and_le_left
  omega

theorem frameAddrOf_le {stack : UserStack} {trap : TrapFrame} (h : InStack stack trap.rsp) :
    (frameAddrOf trap).toNat + size ≤ trap.rsp.toNat := by
  have hbase := stack.base_ge
  have hge : size ≤ trap.rsp.toNat := by
    have : size = 152 := rfl
    have := h.1
    omega
  exact sub_align_le hge (by decide)

/-- A write through the window that agrees with the old memory from `a` on
changes nothing from `a` on. -/
theorem stackWrite_of_eq {addr : UInt64} {len : Nat} {m : ByteMem} {b : Nat} (h : m b = u.mem b) :
    (u.stackWrite addr len m).mem b = u.mem b := by
  simp only [SigUnit.stackWrite]
  split
  · exact h
  · rfl

/-- Inside the stack the window shows what was written. -/
theorem stackWrite_inside {addr : UInt64} {len : Nat} {m : ByteMem} {b : Nat}
    (h : u.stack.base.toNat ≤ b ∧ b < u.stack.base.toNat + u.stack.size.toNat) :
    (u.stackWrite addr len m).mem b = m b := if_pos h

/-- Entering the handler writes only below `usp`. -/
theorem enterHandler_true {u' : SigUnit} {sig : Nat} {action : SignalAction}
    {trap trap' : TrapFrame} {frameAddr usp : UInt64} {siginfo : Option UInt64}
    (husp : u.stack.base.toNat ≤ usp.toNat)
    (h : enterHandler u sig action trap frameAddr usp siginfo = (u', trap', true)) :
    u'.pendingSignalFrameAddr = frameAddr ∧ u'.stack = u.stack ∧
      u'.signalsMasked = u.signalsMasked ∧ ∀ b, usp.toNat ≤ b → u'.mem b = u.mem b := by
  unfold enterHandler at h
  dsimp only at h
  split at h
  · cases h
  cases h
  refine ⟨rfl, rfl, rfl, ?_⟩
  intro b hb
  have hbase := u.stack.base_ge
  have hsub : (usp - 8).toNat = usp.toNat - 8 := by
    rw [UInt64.toNat_sub_of_le _ _ (by rw [UInt64.le_iff_toNat_le]; simp; omega)]
    rfl
  dsimp only
  refine stackWrite_of_eq (ByteMem.store_of_not_mem ?_)
  omega

/-- A completed frame: the interrupted registers can be read back at the
remembered address, and memory from the interrupted stack pointer on is untouched. -/
structure FrameSaved (u u' : SigUnit) (sig : Nat) (action : SignalAction) (trap : TrapFrame) :
    Prop where
  base_le : u.stack.base.toNat ≤ (frameAddrOf trap).toNat
  addr : u'.pendingSignalFrameAddr = frameAddrOf trap
  stack : u'.stack = u.stack
  masked : u'.signalsMasked = u.signalsMasked
  frame : read u'.mem (frameAddrOf trap).toNat =
    ofTrap trap (UInt32.ofNat sig) (deferredFlag action)
  above : ∀ b, trap.rsp.toNat ≤ b → u'.mem b = u.mem b

theorem setupUserframe_true {u' : SigUnit} {sig : Nat} {action : SignalAction}
    {trap trap' : TrapFrame} (hin : InStack u.stack trap.rsp)
    (h : setupUserframe u sig action trap = (u', trap', true)) :
    FrameSaved u u' sig action trap := by
  have hle := frameAddrOf_le hin
  unfold setupUserframe at h
  dsimp only at h
  split at h
  · cases h
  rename_i hnotlt
  have hbase : u.stack.base.toNat ≤ (frameAddrOf trap).toNat := by
    rw [UInt64.lt_iff_toNat_lt] at hnotlt
    omega
  -- the unit with the frame written, and what the frame's bytes are there
  obtain ⟨u1, hu1⟩ : ∃ u1, u1 = u.stackWrite (frameAddrOf trap) size ((ofTrap trap
      (UInt32.ofNat sig) (deferredFlag action)).write u.mem (frameAddrOf trap).toNat) := ⟨_, rfl⟩
  have hstack1 : u1.stack = u.stack := by rw [hu1]; rfl
  have hframe : ∀ b, (frameAddrOf trap).toNat ≤ b →
      b < (frameAddrOf trap).toNat + size →
      u1.mem b = (ofTrap trap (UInt32.ofNat sig) (deferredFlag action)).write u.mem
        (frameAddrOf trap).toNat b := by
    intro b hb hb'
    rw [hu1]
    apply stackWrite_inside
    have := hin.2
    omega
  have habove1 : ∀ b, trap.rsp.toNat ≤ b → u1.mem b = u.mem b := by
    intro b hb
    rw [hu1]
    exact stackWrite_of_eq (write_of_not_mem (by omega))
  -- everything after that is written below the frame
  have hdone : u'.pendingSignalFrameAddr = frameAddrOf trap → u'.stack = u.stack →
      u'.signalsMasked = u.signalsMasked →
      (∀ b, (frameAddrOf trap).toNat ≤ b → u'.mem b = u1.mem b) →
      FrameSaved u u' sig action trap := by
    intro haddr hstack hmasked hmem
    refine ⟨hbase, haddr, hstack, hmasked, ?_, ?_⟩
    · have hread : read u'.mem (frameAddrOf trap).toNat =
          read ((ofTrap trap (UInt32.ofNat sig)
            (deferredFlag action)).write u.mem (frameAddrOf trap).toNat)
            (frameAddrOf trap).toNat := by
        apply read_congr
        intro b hb hb'
        rw [hmem b hb, hframe b hb hb']
      rw [hread, read_write]
    · intro b hb
      rw [hmem b (by omega), habove1 b hb]
  have hmasked1 : u1.signalsMasked = u.signalsMasked := by rw [hu1]; rfl
  rw [← hu1] at h
  split at h
  · -- with siginfo
    split at h
    · cases h
    rename_i hnotlt2
    have hroom : 24 ≤ (frameAddrOf trap).toNat := by
      have := u.stack.base_ge
      omega
    have husp : ((frameAddrOf trap - 24) &&& ~~~0xF).toNat + 24 ≤ (frameAddrOf trap).toNat :=
      sub_align_le hroom (by decide)
    have hbase2 : u1.stack.base.toNat ≤ ((frameAddrOf trap - 24) &&& ~~~0xF).toNat := by
      rw [UInt64.lt_iff_toNat_lt] at hnotlt2
      omega
    obtain ⟨u2, hu2⟩ : ∃ u2, u2 = u1.stackWrite ((frameAddrOf trap - 24) &&& ~~~0xF) 24
        (writeSiginfo u1.mem ((frameAddrOf trap - 24) &&& ~~~0xF).toNat sig) := ⟨_, rfl⟩
    have hstack2 : u2.stack = u1.stack := by rw [hu2]; rfl
    have hmasked2 : u2.signalsMasked = u1.signalsMasked := by rw [hu2]; rfl
    have hmem2 : ∀ b, (frameAddrOf trap).toNat ≤ b → u2.mem b = u1.mem b := by
      intro b hb
      rw [hu2]
      refine stackWrite_of_eq (ByteMem.storeWords_of_not_mem ?_)
      simp only [List.length_cons, List.length_nil]
      omega
    rw [← hu2] at h
    obtain ⟨haddr, hstack, hmasked, hmem⟩ := enterHandler_true (by rw [hstack2]; exact hbase2) h
    refine hdone haddr (hstack.trans (hstack2.trans hstack1))
      (hmasked.trans (hmasked2.trans hmasked1)) ?_
    intro b hb
    rw [hmem b (by omega), hmem2 b hb]
  · obtain ⟨haddr, hstack, hmasked, hmem⟩ := enterHandler_true (by rw [hstack1]; exact hbase) h
    exact hdone haddr (hstack.trans hstack1) (hmasked.trans hmasked1) hmem

/-- A delivery: the frame is saved, and undoing the deferral in the new mask
gives the mask in force. -/
theorem dispatch_handled {u' : SigUnit} {trap trap' : TrapFrame}
    (hin : InStack u.stack trap.rsp) (h : dispatch u trap = (u', trap', true)) :
    ∃ sig action u1, sig < 64 ∧ FrameSaved u1 u' sig action trap ∧ u1.mem = u.mem ∧
      u1.stack = u.stack ∧ (if deferredFlag action ≠ 0 then u1.signalsMasked &&& ~~~(bit sig)
        else u1.signalsMasked) = u.signalsMasked := by
  unfold dispatch at h
  cases hnext : nextSignal u with
  | none => simp [hnext] at h
  | some sig =>
    obtain ⟨hlt, hclear⟩ := nextSignal_some hnext
    have hsame := clearPending_same u sig
    rw [hnext] at h
    dsimp only at h
    cases hdisp : (u.signalActions sig).disposition with
    | default => simp [hdisp] at h
    | ignore => simp [hdisp] at h
    | handler =>
      rw [hdisp] at h
      by_cases hdefer : (u.signalActions sig).flags &&& saNodefer = 0
      · rw [if_pos hdefer] at h
        refine ⟨sig, u.signalActions sig, _, hlt, setupUserframe_true ?_ h, hsame.mem,
          hsame.stack, ?_⟩
        · rw [hsame.stack]
          exact hin
        · rw [deferredFlag, if_pos hdefer, if_pos (by decide), hsame.signalsMasked,
            or_bit_and_not_bit hlt hclear]
      rw [if_neg hdefer] at h
      refine ⟨sig, u.signalActions sig, _, hlt, setupUserframe_true ?_ h, hsame.mem,
        hsame.stack, ?_⟩
      · rw [hsame.stack]
        exact hin
      · rw [deferredFlag, if_neg hdefer, if_neg (by decide), hsame.signalsMasked]

end Vespera.Signal
