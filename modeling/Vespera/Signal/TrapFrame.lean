import Mathlib.Data.UInt
import Vespera.Lib.ByteMem

/-! # Trap frames and signal frames

The register images that signal delivery moves around: the user's registers,
`struct TrapFrame`, and `struct SignalFrame` on the user stack.

There are two ways into the kernel and back. An interrupt
(`arch/x86_64/interrupts/interrupts.asm`) fills a `TrapFrame` field by field and
reloads it field by field. The system call path
(`arch/x86_64/syscalls/syscall.asm`) fills the `current_trap_frame` of the unit at
fixed byte offsets, and these offsets are not those of the structure: `rax` goes
to offset 0, which is the field `r15`, and so on. It also keeps the user's `r15`
on the user stack instead of in the frame. `syscallEntry` and `syscallExit`
follow the offsets.
-/

namespace Vespera.Signal

open Lib ByteMem

/-- The registers of a user context. -/
structure Regs where
  rax : UInt64
  rbx : UInt64
  rcx : UInt64
  rdx : UInt64
  rbp : UInt64
  rsi : UInt64
  rdi : UInt64
  r8 : UInt64
  r9 : UInt64
  r10 : UInt64
  r11 : UInt64
  r12 : UInt64
  r13 : UInt64
  r14 : UInt64
  r15 : UInt64
  rip : UInt64
  rsp : UInt64
  rflags : UInt64
deriving Repr, DecidableEq

/-- `struct TrapFrame`, fields in layout order. -/
structure TrapFrame where
  r15 : UInt64
  r14 : UInt64
  r13 : UInt64
  r12 : UInt64
  r11 : UInt64
  r10 : UInt64
  r9 : UInt64
  r8 : UInt64
  rbp : UInt64
  rdi : UInt64
  rsi : UInt64
  rdx : UInt64
  rcx : UInt64
  rbx : UInt64
  rax : UInt64
  vector : UInt64
  errorCode : UInt64
  rip : UInt64
  cs : UInt64
  rflags : UInt64
  rsp : UInt64
  ss : UInt64
deriving Repr, DecidableEq

/-! ## Interrupts -/

/-- `isr_common_entry` from user mode. -/
def interruptEntry (regs : Regs) (vector : UInt64) : TrapFrame where
  r15 := regs.r15
  r14 := regs.r14
  r13 := regs.r13
  r12 := regs.r12
  r11 := regs.r11
  r10 := regs.r10
  r9 := regs.r9
  r8 := regs.r8
  rbp := regs.rbp
  rdi := regs.rdi
  rsi := regs.rsi
  rdx := regs.rdx
  rcx := regs.rcx
  rbx := regs.rbx
  rax := regs.rax
  vector := vector
  errorCode := 0
  rip := regs.rip
  cs := 0x23
  rflags := regs.rflags
  rsp := regs.rsp
  ss := 0x1b

/-- The way back, ending in `iretq`. -/
def interruptExit (t : TrapFrame) : Regs where
  rax := t.rax
  rbx := t.rbx
  rcx := t.rcx
  rdx := t.rdx
  rbp := t.rbp
  rsi := t.rsi
  rdi := t.rdi
  r8 := t.r8
  r9 := t.r9
  r10 := t.r10
  r11 := t.r11
  r12 := t.r12
  r13 := t.r13
  r14 := t.r14
  r15 := t.r15
  rip := t.rip
  rsp := t.rsp
  rflags := t.rflags

/-! ## System calls -/

/-- `push r15` on the user stack, the first thing `syscall_entry` does. -/
def pushR15 (regs : Regs) (m : ByteMem) : ByteMem := m.store 8 (regs.rsp - 8).toNat regs.r15.toNat

/-- `syscall_entry` up to the call of `syscall_handler`. The instruction has put
the return address into `rcx` and the flags into `r11`. Offset `0x70`, the field
`rax`, is not written. -/
def syscallEntry (regs : Regs) (t : TrapFrame) : TrapFrame where
  r15 := regs.rax         -- 0x00
  r14 := regs.rbx         -- 0x08
  r13 := regs.rip         -- 0x10, from rcx
  r12 := regs.rdx         -- 0x18
  r11 := regs.rbp         -- 0x20
  r10 := regs.rsi         -- 0x28
  r9 := regs.rdi          -- 0x30
  r8 := regs.r8           -- 0x38
  rbp := regs.r9          -- 0x40
  rdi := regs.r10         -- 0x48
  rsi := regs.rflags      -- 0x50, from r11
  rdx := regs.r12         -- 0x58
  rcx := regs.r13         -- 0x60
  rbx := regs.r14         -- 0x68
  rax := t.rax            -- 0x70
  vector := 0
  errorCode := 0
  rip := regs.rip
  cs := 0x23
  rflags := regs.rflags
  rsp := regs.rsp - 8
  ss := 0x1b

/-- The way back, ending in `pop r15` and `sysret`: `rax` is what
`syscall_handler` returns, `rip` comes from `rcx` and the flags from `r11`. -/
def syscallExit (t : TrapFrame) (ret : UInt64) (m : ByteMem) : Regs where
  rax := ret
  rbx := t.r14
  rcx := t.rip
  rdx := t.r12
  rbp := t.r11
  rsi := t.r10
  rdi := t.r9
  r8 := t.r8
  r9 := t.rbp
  r10 := t.rdi
  r11 := t.rflags ||| 0x200
  r12 := t.rdx
  r13 := t.rcx
  r14 := t.rbx
  r15 := UInt64.ofNat (m.load 8 t.rsp.toNat)
  rip := t.rip
  rsp := t.rsp + 8
  rflags := ((t.rflags ||| 0x200) &&& 0x3C7FD7) ||| 2

/-- The registers of a signal frame decide the way back, apart from `cs`, `ss`
and the two fields nobody reads. -/
structure SameRegs (t t' : TrapFrame) : Prop where
  r15 : t.r15 = t'.r15
  r14 : t.r14 = t'.r14
  r13 : t.r13 = t'.r13
  r12 : t.r12 = t'.r12
  r11 : t.r11 = t'.r11
  r10 : t.r10 = t'.r10
  r9 : t.r9 = t'.r9
  r8 : t.r8 = t'.r8
  rbp : t.rbp = t'.rbp
  rdi : t.rdi = t'.rdi
  rsi : t.rsi = t'.rsi
  rdx : t.rdx = t'.rdx
  rcx : t.rcx = t'.rcx
  rbx : t.rbx = t'.rbx
  rip : t.rip = t'.rip
  rflags : t.rflags = t'.rflags
  rsp : t.rsp = t'.rsp

/-- The way back from a system call depends on the saved registers, the return
value and the word at the saved stack pointer. -/
theorem syscallExit_congr {t t' : TrapFrame} {ret : UInt64} {m m' : ByteMem}
    (h : SameRegs t t') (hm : m.load 8 t'.rsp.toNat = m'.load 8 t'.rsp.toNat) :
    syscallExit t ret m = syscallExit t' ret m' := by
  simp [syscallExit, h.r14, h.r12, h.r11, h.r10, h.r9, h.r8, h.rbp, h.rdi, h.rdx, h.rcx, h.rbx,
    h.rip, h.rflags, h.rsp, hm]

/-! ## Signal frames -/

/-- `struct SignalFrame`. -/
structure SignalFrame where
  rax : UInt64
  rbx : UInt64
  rcx : UInt64
  rdx : UInt64
  rbp : UInt64
  rsi : UInt64
  rdi : UInt64
  r8 : UInt64
  r9 : UInt64
  r10 : UInt64
  r11 : UInt64
  r12 : UInt64
  r13 : UInt64
  r14 : UInt64
  r15 : UInt64
  rip : UInt64
  rsp : UInt64
  rflags : UInt64
  signum : UInt32
  wasDeferred : UInt32
deriving Repr, DecidableEq

namespace SignalFrame

/-- `sizeof(SignalFrame)`. -/
def size : Nat := 152

/-- The frame `signal_setup_userframe` fills in. -/
def ofTrap (t : TrapFrame) (signum wasDeferred : UInt32) : SignalFrame where
  rax := t.rax
  rbx := t.rbx
  rcx := t.rcx
  rdx := t.rdx
  rbp := t.rbp
  rsi := t.rsi
  rdi := t.rdi
  r8 := t.r8
  r9 := t.r9
  r10 := t.r10
  r11 := t.r11
  r12 := t.r12
  r13 := t.r13
  r14 := t.r14
  r15 := t.r15
  rip := t.rip
  rsp := t.rsp
  rflags := t.rflags
  signum := signum
  wasDeferred := wasDeferred

/-- What `signal_restore_frame` writes back into a trap frame. -/
def toTrap (f : SignalFrame) (t : TrapFrame) : TrapFrame :=
  { t with
    rax := f.rax, rbx := f.rbx, rcx := f.rcx, rdx := f.rdx, rbp := f.rbp, rsi := f.rsi
    rdi := f.rdi, r8 := f.r8, r9 := f.r9, r10 := f.r10, r11 := f.r11, r12 := f.r12
    r13 := f.r13, r14 := f.r14, r15 := f.r15, rip := f.rip, rsp := f.rsp, rflags := f.rflags }

theorem toTrap_ofTrap {t t' : TrapFrame} {signum wasDeferred : UInt32} :
    SameRegs ((ofTrap t signum wasDeferred).toTrap t') t := by
  constructor <;> rfl

/-- The eighteen register words in layout order. -/
def words (f : SignalFrame) : List Nat :=
  [f.rax, f.rbx, f.rcx, f.rdx, f.rbp, f.rsi, f.rdi, f.r8, f.r9, f.r10, f.r11, f.r12, f.r13,
    f.r14, f.r15, f.rip, f.rsp, f.rflags].map UInt64.toNat

/-- The frame's bytes from `a` on. -/
def write (f : SignalFrame) (m : ByteMem) (a : Nat) : ByteMem :=
  ((m.storeWords a f.words).store 4 (a + 144) f.signum.toNat).store 4 (a + 148) f.wasDeferred.toNat

/-- Reading a frame. -/
def read (m : ByteMem) (a : Nat) : SignalFrame where
  rax := UInt64.ofNat (m.load 8 (a + 8 * 0))
  rbx := UInt64.ofNat (m.load 8 (a + 8 * 1))
  rcx := UInt64.ofNat (m.load 8 (a + 8 * 2))
  rdx := UInt64.ofNat (m.load 8 (a + 8 * 3))
  rbp := UInt64.ofNat (m.load 8 (a + 8 * 4))
  rsi := UInt64.ofNat (m.load 8 (a + 8 * 5))
  rdi := UInt64.ofNat (m.load 8 (a + 8 * 6))
  r8 := UInt64.ofNat (m.load 8 (a + 8 * 7))
  r9 := UInt64.ofNat (m.load 8 (a + 8 * 8))
  r10 := UInt64.ofNat (m.load 8 (a + 8 * 9))
  r11 := UInt64.ofNat (m.load 8 (a + 8 * 10))
  r12 := UInt64.ofNat (m.load 8 (a + 8 * 11))
  r13 := UInt64.ofNat (m.load 8 (a + 8 * 12))
  r14 := UInt64.ofNat (m.load 8 (a + 8 * 13))
  r15 := UInt64.ofNat (m.load 8 (a + 8 * 14))
  rip := UInt64.ofNat (m.load 8 (a + 8 * 15))
  rsp := UInt64.ofNat (m.load 8 (a + 8 * 16))
  rflags := UInt64.ofNat (m.load 8 (a + 8 * 17))
  signum := UInt32.ofNat (m.load 4 (a + 144))
  wasDeferred := UInt32.ofNat (m.load 4 (a + 148))

theorem read_congr {m m' : ByteMem} {a : Nat} (h : ∀ b, a ≤ b → b < a + size → m b = m' b) :
    read m a = read m' a := by
  have hload : ∀ n i, i + n ≤ size → m.load n (a + i) = m'.load n (a + i) := by
    intro n i hi
    apply load_congr
    intro b hb hb'
    exact h b (by omega) (by omega)
  simp (disch := decide) only [read, hload]

theorem write_of_not_mem {f : SignalFrame} {m : ByteMem} {a b : Nat}
    (h : b < a ∨ a + size ≤ b) : f.write m a b = m b := by
  have hlen : f.words.length = 18 := rfl
  unfold size at h
  rw [write, store_of_not_mem (by omega), store_of_not_mem (by omega),
    storeWords_of_not_mem (by omega)]

/-- A word of a frame just written. -/
theorem load_write_word {f : SignalFrame} {m : ByteMem} {a i : Nat} {w : UInt64}
    (h : f.words[i]? = some w.toNat) : UInt64.ofNat ((f.write m a).load 8 (a + 8 * i)) = w := by
  have hi : i < 18 := by
    have := (List.getElem?_eq_some_iff.mp h).1
    exact this
  rw [write, load_store_of_disjoint (by omega), load_store_of_disjoint (by omega),
    load_storeWords i h]
  have hw : w.toNat < 256 ^ 8 := w.toNat_lt
  rw [Nat.mod_eq_of_lt hw, UInt64.ofNat_toNat]

/-- A frame that was written is read back. -/
theorem read_write {f : SignalFrame} {m : ByteMem} {a : Nat} : read (f.write m a) a = f := by
  have hsig : UInt32.ofNat ((f.write m a).load 4 (a + 144)) = f.signum := by
    have hlt : f.signum.toNat < 256 ^ 4 := f.signum.toNat_lt
    rw [write, load_store_of_disjoint (by omega), load_store_self,
      Nat.mod_eq_of_lt hlt, UInt32.ofNat_toNat]
  have hdef : UInt32.ofNat ((f.write m a).load 4 (a + 148)) = f.wasDeferred := by
    have hlt : f.wasDeferred.toNat < 256 ^ 4 := f.wasDeferred.toNat_lt
    rw [write, load_store_self, Nat.mod_eq_of_lt hlt, UInt32.ofNat_toNat]
  have hword : ∀ i w, f.words[i]? = some (UInt64.toNat w) →
      UInt64.ofNat ((f.write m a).load 8 (a + 8 * i)) = w := fun _ _ => load_write_word
  simp only [read, hsig, hdef, hword 0 f.rax rfl, hword 1 f.rbx rfl, hword 2 f.rcx rfl,
    hword 3 f.rdx rfl, hword 4 f.rbp rfl, hword 5 f.rsi rfl, hword 6 f.rdi rfl, hword 7 f.r8 rfl,
    hword 8 f.r9 rfl, hword 9 f.r10 rfl, hword 10 f.r11 rfl, hword 11 f.r12 rfl,
    hword 12 f.r13 rfl, hword 13 f.r14 rfl, hword 14 f.r15 rfl, hword 15 f.rip rfl,
    hword 16 f.rsp rfl, hword 17 f.rflags rfl]

end SignalFrame

end Vespera.Signal
