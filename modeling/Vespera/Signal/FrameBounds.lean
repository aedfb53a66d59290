import Vespera.Signal.Transparency

/-! # What a signal frame can reach

`signal_setup_userframe` copies to `user_stack` plus the distance of a user address from the start
of the stack. It compares the address with the start only, so a stack pointer above the stack, or
one so small that the subtraction wraps around, takes the copies out of it. `signal_restore_frame`
loads the registers as it finds them in the user's memory.

* `writesInside_iff`: which stack pointers keep the copies in the stack;
* `signal_frames_contained_iff`: which stack pointers and which frames are harmless.
-/

namespace Vespera.Signal

open Lib SignalFrame

/-! ## Setting up a frame -/

/-- What the kernel writes when it sets up a frame. -/
def userframeWrites (u : SigUnit) (sig : Nat) (action : SignalAction) (trap : TrapFrame) :
    List (Nat × Nat) :=
  (setupUserframe { u with kernelWrites := [] } sig action trap).1.kernelWrites

/-- All writes go into `[user_stack, user_stack + user_stack_size)`. -/
def WritesInside (stack : UserStack) (writes : List (Nat × Nat)) : Prop :=
  ∀ w ∈ writes, w.1 + w.2 ≤ stack.size.toNat

/-- The frame, the stack pointer less its size and aligned, would begin below the stack, where the
kernel gives up, or end inside it. -/
def FrameFits (stack : UserStack) (rsp : UInt64) : Prop :=
  ((rsp - 152) &&& ~~~0xF) < stack.base ∨
    ((rsp - 152) &&& ~~~0xF).toNat + 152 ≤ stack.base.toNat + stack.size.toNat

theorem stackWrite_inside_iff {u : SigUnit} {addr : UInt64} {len : Nat} (m : ByteMem)
    (hbase : ¬ addr < u.stack.base) : WritesInside u.stack (u.stackWrite addr len m).kernelWrites ↔
      addr.toNat + len ≤ u.stack.base.toNat + u.stack.size.toNat ∧
        WritesInside u.stack u.kernelWrites := by
  have hle : u.stack.base.toNat ≤ addr.toNat := Nat.le_of_not_lt hbase
  have hsub : (addr - u.stack.base).toNat = addr.toNat - u.stack.base.toNat :=
    UInt64.toNat_sub_of_le _ _ (UInt64.le_iff_toNat_le.mpr hle)
  simp only [WritesInside, SigUnit.stackWrite, List.forall_mem_cons, hsub]
  exact and_congr_left' (by omega)

/-- The word for the trampoline. -/
theorem enterHandler_inside_iff {u : SigUnit} {sig : Nat} {action : SignalAction} {trap : TrapFrame}
    {frameAddr usp : UInt64} {siginfo : Option UInt64} :
    WritesInside u.stack (enterHandler u sig action trap frameAddr usp siginfo).1.kernelWrites ↔
      (¬ usp - 8 < u.stack.base → (usp - 8).toNat + 8 ≤ u.stack.base.toNat + u.stack.size.toNat) ∧
        WritesInside u.stack u.kernelWrites := by
  unfold enterHandler
  dsimp only
  split
  · next hlt => exact (and_iff_right (absurd hlt)).symm
  · next hlt =>
    exact (stackWrite_inside_iff u.mem hlt).trans (and_congr_left' (imp_iff_right hlt).symm)

theorem sub_eight_le {stack : UserStack} {usp : UInt64} (hbase : stack.base.toNat ≤ usp.toNat)
    (htop : usp.toNat ≤ stack.base.toNat + stack.size.toNat) :
    (usp - 8).toNat + 8 ≤ stack.base.toNat + stack.size.toNat := by
  have hge := stack.base_ge
  have hsub : (usp - 8).toNat = usp.toNat - 8 :=
    UInt64.toNat_sub_of_le _ _ (UInt64.le_iff_toNat_le.mpr (by simp; omega))
  omega

/-- Only the frame itself can leave the stack: everything else goes below it. -/
theorem writesInside_iff {u : SigUnit} {sig : Nat} {action : SignalAction} {trap : TrapFrame} :
    WritesInside u.stack (userframeWrites u sig action trap) ↔ FrameFits u.stack trap.rsp := by
  show _ ↔ frameAddrOf trap < u.stack.base ∨
    (frameAddrOf trap).toNat + size ≤ u.stack.base.toNat + u.stack.size.toNat
  unfold userframeWrites setupUserframe
  dsimp only
  by_cases hlt : frameAddrOf trap < u.stack.base
  · simp [WritesInside, hlt]
  have hbase : u.stack.base.toNat ≤ (frameAddrOf trap).toNat := Nat.le_of_not_lt hlt
  rw [if_neg hlt, or_iff_right hlt]
  -- the unit with the frame written
  have hframe : ∀ m, WritesInside u.stack (({ u with kernelWrites := [] } : SigUnit).stackWrite
      (frameAddrOf trap) size m).kernelWrites ↔
      (frameAddrOf trap).toNat + size ≤ u.stack.base.toNat + u.stack.size.toNat := fun m =>
    (@stackWrite_inside_iff { u with kernelWrites := [] } _ _ m hlt).trans
      (and_iff_left fun _ h => nomatch h)
  split
  · have hroom : 24 ≤ (frameAddrOf trap).toNat := Nat.le_trans (by decide)
      (Nat.le_trans u.stack.base_ge hbase)
    have husp : ((frameAddrOf trap - 24) &&& ~~~0xF).toNat + 24 ≤ (frameAddrOf trap).toNat :=
      sub_align_le hroom (by decide)
    split
    · exact hframe _
    next hlt' =>
    have hbase' : u.stack.base.toNat ≤ _ := Nat.le_of_not_lt hlt'
    refine enterHandler_inside_iff.trans ((and_congr_right' ((stackWrite_inside_iff u.mem hlt').trans
      (and_congr_right' (hframe _)))).trans ⟨fun h => h.2.2, fun hfits => ⟨fun _ => ?_, ?_, hfits⟩⟩)
    · exact @sub_eight_le u.stack _ hbase' (by omega)
    · show ((frameAddrOf trap - 24) &&& ~~~0xF).toNat + 24 ≤ u.stack.base.toNat + u.stack.size.toNat
      omega
  · exact enterHandler_inside_iff.trans ((and_congr_right' (hframe _)).trans
      ⟨And.right, fun hfits => ⟨fun _ => @sub_eight_le u.stack _ hbase (by omega), hfits⟩⟩)

/-! ## Going back -/

/-- The registers with which the unit comes back from `sys_sigreturn`. -/
def resumed (u : SigUnit) : Regs := syscallExit (restoreFrame u).1.trap (restoreFrame u).2 u.mem

/-- Those with which it would come back without a frame. -/
def unrestored (u : SigUnit) : Regs := syscallExit u.trap efault u.mem

/-- An address of the user half. -/
def UserHalf (a : UInt64) : Prop := a.toNat < 2 ^ 47

/-- `CF`, `PF`, `AF`, `ZF`, `SF`, `OF`, `DF` and `TF`. -/
def plainFlags : UInt64 := 0xDD5

/-- The unit is in user code, its other flags are as before and its mask has lost at most one
signal. -/
structure Contained (u : SigUnit) : Prop where
  rip : UserHalf (resumed u).rip
  flags : ((resumed u).rflags ^^^ (unrestored u).rflags) &&& ~~~plainFlags = 0
  mask : ∃ n < 64, (restoreFrame u).1.signalsMasked = u.signalsMasked ∨
    (restoreFrame u).1.signalsMasked = u.signalsMasked &&& ~~~(bit n)

/-- The frame in the user's memory. -/
def userFrame (u : SigUnit) : SignalFrame := read u.mem u.pendingSignalFrameAddr.toNat

/-- The remembered address is not one of a frame in the stack, or the frame there has a `rip` of
the user half and the `IOPL`, `NT`, `AC`, `VIF`, `VIP` and `ID` flags of the unit. -/
def FrameHarmless (u : SigUnit) : Prop :=
  (u.pendingSignalFrameAddr < u.stack.base ∨
    u.pendingSignalFrameAddr + 152 > u.stack.base + u.stack.size) ∨
    UserHalf (userFrame u).rip ∧ ((userFrame u).rflags ^^^ u.trap.rflags) &&& 0x3C7000 = 0

/-- Of the flags that `sysret` loads the user's frame decides all but one. -/
theorem sysret_flags {f g : UInt64} :
    (((f ||| 0x200) &&& 0x3C7FD7 ||| 2) ^^^ ((g ||| 0x200) &&& 0x3C7FD7 ||| 2)) &&& ~~~plainFlags =
      (f ^^^ g) &&& 0x3C7000 := by
  have hmask : ∀ k < 64, ((0x3C7FD7 : UInt64).toNat.testBit k && !(0x200 : UInt64).toNat.testBit k &&
      !(2 : UInt64).toNat.testBit k && !plainFlags.toNat.testBit k) =
        (0x3C7000 : UInt64).toNat.testBit k := by decide
  have hbool : ∀ f g c a b d e : Bool, (a && !c && !b && !d) = e →
      ((((f || c) && a || b) ^^ ((g || c) && a || b)) && !d) = ((f ^^ g) && e) := by decide
  apply uint64_eq_of_testBit
  intro k hk
  simp only [UInt64.toNat_and, UInt64.toNat_or, UInt64.toNat_xor, Nat.testBit_and, Nat.testBit_or,
    Nat.testBit_xor, not_testBit hk]
  exact hbool _ _ _ _ _ _ _ (hmask k hk)

theorem contained_iff {u : SigUnit} (hrip : UserHalf u.trap.rip) :
    Contained u ↔ FrameHarmless u := by
  by_cases hcheck : u.pendingSignalFrameAddr < u.stack.base ∨
      u.pendingSignalFrameAddr + 152 > u.stack.base + u.stack.size
  · -- the call fails, and nothing changes
    have hrestore : restoreFrame u = (u, efault) := if_pos hcheck
    refine iff_of_true ⟨?_, ?_, ?_⟩ (.inl hcheck)
    · rw [resumed, hrestore]
      exact hrip
    · rw [resumed, hrestore, unrestored, UInt64.xor_self, UInt64.zero_and]
    · rw [hrestore]
      exact ⟨0, by decide, .inl rfl⟩
  have hrestore : restoreFrame u = _ := if_neg hcheck
  have hback : (resumed u).rip = (userFrame u).rip ∧
      ((resumed u).rflags ^^^ (unrestored u).rflags) &&& ~~~plainFlags =
        ((userFrame u).rflags ^^^ u.trap.rflags) &&& 0x3C7000 := by
    rw [resumed, hrestore]
    exact ⟨rfl, sysret_flags⟩
  have hmask : ∃ n < 64, (restoreFrame u).1.signalsMasked = u.signalsMasked ∨
      (restoreFrame u).1.signalsMasked = u.signalsMasked &&& ~~~(bit n) := by
    rw [hrestore]
    refine ⟨(userFrame u).signum.toNat % 64, Nat.mod_lt _ (by decide), ?_⟩
    split
    · exact .inr rfl
    · exact .inl rfl
  constructor
  · rintro ⟨hrip', hflags, -⟩
    exact .inr ⟨hback.1 ▸ hrip', hback.2 ▸ hflags⟩
  · intro hharmless
    obtain ⟨hrip', hflags⟩ := hharmless.resolve_left hcheck
    exact ⟨hback.1 ▸ hrip', hback.2 ▸ hflags, hmask⟩

/-- Delivery stays in the stack and the way back in user mode for exactly these stack pointers and
frames. -/
theorem signal_frames_contained_iff (u : SigUnit) (hrip : UserHalf u.trap.rip)
    (sig : Nat) (action : SignalAction) (trap : TrapFrame) :
    (WritesInside u.stack (userframeWrites u sig action trap) ∧ Contained u) ↔
      (FrameFits u.stack trap.rsp ∧ FrameHarmless u) := by
  rw [writesInside_iff, contained_iff hrip]

/-- A stack pointer in the stack, and no frame. -/
theorem signal_frames_contained_ordinary :
    WritesInside demoUnit.stack (userframeWrites demoUnit 10 ⟨.handler, 0x401000, saSiginfo⟩
      demoUnit.trap) ∧ Contained demoUnit :=
  (signal_frames_contained_iff demoUnit (by unfold UserHalf; decide) _ _ _).mpr
    ⟨.inr (by decide), .inl (.inl (by decide))⟩

/-- With a stack pointer one page above the stack the frame goes outside, and a frame in which the
user has set the `IOPL` flags and an address of the kernel is taken as it is. -/
theorem signal_frame_escapes :
    ¬ WritesInside demoUnit.stack (userframeWrites demoUnit 10 (demoUnit.signalActions 10)
        { demoUnit.trap with rsp := 0x7FFE00011000 }) ∧
      ∃ mem, UInt64.toNat (resumed { demoUnit with
        mem := mem
        pendingSignalFrameAddr := 0x7FFE00008000 }).rip = 0xFFFF800000000000 ∧
        UInt64.toNat ((resumed { demoUnit with
          mem := mem
          pendingSignalFrameAddr := 0x7FFE00008000 }).rflags &&& 0x3000) = 0x3000 := by
  rw [writesInside_iff]
  refine ⟨by unfold FrameFits; decide, write (ofTrap
    { demoUnit.trap with rip := 0xFFFF800000000000, rflags := 0x3000 } 10 1) demoUnit.mem
    0x7FFE00008000, by decide +kernel, by decide +kernel⟩

end Vespera.Signal
