import Vespera.Exec.Elf
import Vespera.Lib.Bits

/-! # The first stack of a program

`setup_user_args_and_env` of `kernel/units/unit_manager.cpp` puts the strings of `envp` and `argv`
at the top of the stack of a main unit, each at a multiple of 16, and below them a block of words:
the number of arguments, the two arrays of pointers and the auxiliary vector. The words that are not
of the auxiliary vector may be odd in number, and then there is a word of padding above the block.

`Stacked` says what has been written so far: the pieces are apart, above the stack pointer and in
the stack, the memory still holds them, and everywhere else it is as it was. Each write keeps this,
so that in the end the stack holds the whole block (`arg_block_correct`). What the auxiliary vector
has to say is stated tag by tag in `AuxSays`, apart from the table of the code.
-/

namespace Vespera.Exec

open Lib Security List

/-- The user stack of a main unit. `setup_stacks` puts it into a slot of the realm; `spawn` leaves
both sizes in the configuration 0, so that it ends at a page boundary. -/
structure StackArea where
  base : UInt64
  size : UInt64
  pos : 0 < base.toNat
  low : base.toNat + size.toNat < 2 ^ 64
  aligned : (base.toNat + size.toNat) % 16 = 0

namespace StackArea

/-- The first slot of an address space, below `REGION_TOP`, of `DEFAULT_UNIT_STACK_SIZE`. -/
def first : StackArea where
  base := 0x00007FFF30000000 - 8 * 1024 * 1024
  size := 8 * 1024 * 1024
  pos := by decide
  low := by decide
  aligned := by decide

def top (area : StackArea) : Nat := area.base.toNat + area.size.toNat

end StackArea

/-- The user stack of a unit, by the offset from its base, and its stack pointer. -/
structure UserStack where
  mem : ByteMem
  sp : UInt64

variable {area : StackArea}

namespace UserStack

/-- A stack that nothing has been put on. -/
def fresh (area : StackArea) (mem : ByteMem) : UserStack := ⟨mem, area.base + area.size⟩

variable (area)

def memcpyToUser (s : UserStack) (dest : UInt64) (src : List UInt8) : UserStack :=
  if dest - area.base ≥ area.size then s
  else { s with mem := s.mem.storeBytes (dest - area.base).toNat src }

def writeUserPtr (s : UserStack) (addr val : UInt64) : UserStack :=
  if addr - area.base ≥ area.size then s
  else { s with mem := s.mem.store 8 (addr - area.base).toNat val.toNat }

/-- Put one word below the stack pointer. -/
def push (s : UserStack) (val : UInt64) : UserStack :=
  { s with sp := s.sp - 8 }.writeUserPtr area (s.sp - 8) val

/-- Put words on the stack, the last one first. -/
def pushWords (s : UserStack) (ws : List UInt64) : UserStack :=
  ws.foldr (fun w s => s.push area w) s

/-- Put strings on the stack, the last one first: the stack, and where they are. -/
def pushStrings (s : UserStack) : List (List UInt8) → UserStack × List UInt64
  | [] => (s, [])
  | str :: strs =>
    let r := pushStrings s strs
    let sp := (r.1.sp - UInt64.ofNat (str.length + 1)) &&& ~~~0xF
    ({ r.1 with sp := sp }.memcpyToUser area sp (str ++ [0]), sp :: r.2)

end UserStack

def atNull : UInt64 := 0
def atPhdr : UInt64 := 3
def atPhent : UInt64 := 4
def atPhnum : UInt64 := 5
def atPagesz : UInt64 := 6
def atBase : UInt64 := 7
def atEntry : UInt64 := 9
def atUid : UInt64 := 11
def atEuid : UInt64 := 12
def atGid : UInt64 := 13
def atEgid : UInt64 := 14
def atSecure : UInt64 := 23

/-- The table of `write_aux_vector`. -/
def auxEntries (elf : LoadResult) (cred : ProcessCredentials) : List (UInt64 × UInt64) :=
  [(atPhdr, elf.phdrVaddr), (atPhent, UInt64.ofNat elf.phent), (atPhnum, UInt64.ofNat elf.phnum),
    (atPagesz, 4096), (atBase, (elf.interp.map Prod.snd).getD 0), (atEntry, elf.entryPoint),
    (atUid, cred.uid.toUInt64), (atEuid, cred.euid.toUInt64), (atGid, cred.gid.toUInt64),
    (atEgid, cred.egid.toUInt64), (atSecure, 0)]

/-- Pairs as words one after the other. -/
def pairWords (ps : List (UInt64 × UInt64)) : List UInt64 := ps.flatMap fun p => [p.1, p.2]

/-- The words of `write_aux_vector`, if there is a vector. -/
def auxWords : Option (LoadResult × ProcessCredentials) → List UInt64
  | none => []
  | some (elf, cred) => pairWords (auxEntries elf cred) ++ [atNull, atNull]

/-- The stack that `setup_user_args_and_env` leaves, and the registers that it sets. -/
structure ArgSetup where
  stack : UserStack
  rdi : UInt64
  rsi : UInt64
  rdx : UInt64

/-- `setup_user_args_and_env` on a stack with some contents. -/
def setupUserArgsAndEnv (area : StackArea) (mem : ByteMem) (argv envp : List (List UInt8))
    (aux : Option (LoadResult × ProcessCredentials)) : ArgSetup :=
  let envp := envp.take 16
  let argv := argv.take 16
  let (s, envpUser) := (UserStack.fresh area mem).pushStrings area envp
  let (s, argvUser) := s.pushStrings area argv
  let s := if (argv.length + envp.length + 3) % 2 ≠ 0 then { s with sp := s.sp - 8 } else s
  let s := s.pushWords area (auxWords aux)
  let s := s.pushWords area (envpUser ++ [0])
  let envpPtr := s.sp
  let s := s.pushWords area (argvUser ++ [0])
  let argvPtr := s.sp
  { stack := s.push area (UInt64.ofNat argv.length)
    rdi := UInt64.ofNat argv.length
    rsi := argvPtr
    rdx := envpPtr }

/-! ## What is written -/

/-- Bytes that are written from an address on. -/
structure Piece where
  addr : Nat
  len : Nat
  byte : Nat → UInt8

/-- Words one after the other, each with its low byte first. -/
def wordPieces (addr : Nat) : List UInt64 → List Piece
  | [] => []
  | w :: ws => ⟨addr, 8, fun j => UInt8.ofNat (w.toNat / 256 ^ j)⟩ :: wordPieces (addr + 8) ws

/-- Strings with their NUL, at the addresses `ptrs`. -/
def stringPieces (ptrs : List UInt64) (strs : List (List UInt8)) : List Piece :=
  List.zipWith (fun p str => ⟨p.toNat, str.length + 1, fun j => (str ++ [0]).getD j 0⟩) ptrs strs

/-- The pieces lie one above the other from the stack pointer on, inside the stack, and the memory
holds them. The rest of it is that of `mem`. -/
structure Stacked (area : StackArea) (mem : ByteMem) (s : UserStack) (ps : List Piece) : Prop where
  apart : ps.Pairwise fun p q => p.addr + p.len ≤ q.addr
  inside : ∀ p ∈ ps, s.sp.toNat ≤ p.addr ∧ p.addr + p.len ≤ area.top
  holds : ∀ p ∈ ps, ∀ j < p.len, s.mem (p.addr - area.base.toNat + j) = p.byte j
  rest : ∀ b, (∀ p ∈ ps, b < p.addr - area.base.toNat ∨ p.addr - area.base.toNat + p.len ≤ b) →
    s.mem b = mem b
  low : area.base.toNat ≤ s.sp.toNat ∧ s.sp.toNat ≤ area.top

variable {mem : ByteMem} {s : UserStack} {ps : List Piece}

theorem stacked_fresh (area : StackArea) (mem : ByteMem) :
    (UserStack.fresh area mem).sp.toNat = area.top ∧ Stacked area mem (.fresh area mem) [] := by
  have hsp : (UserStack.fresh area mem).sp.toNat = area.top := by
    rw [UserStack.fresh, UInt64.toNat_add, Nat.mod_eq_of_lt area.low]
    rfl
  refine ⟨hsp, .nil, (fun _ h => nomatch h), (fun _ h => nomatch h), fun _ _ => rfl, ?_⟩
  rw [hsp, StackArea.top]
  omega

section

variable (h : Stacked area mem s ps)

include h

theorem Stacked.lower {sp : UInt64} (hbase : area.base.toNat ≤ sp.toNat)
    (hsp : sp.toNat ≤ s.sp.toNat) : Stacked area mem { s with sp := sp } ps :=
  ⟨h.apart, fun p hp => ⟨hsp.trans (h.inside p hp).1, (h.inside p hp).2⟩, h.holds, h.rest,
    hbase, hsp.trans h.low.2⟩

/-- One more piece is written at the new stack pointer. -/
theorem Stacked.put (sp : UInt64) {len : Nat} {byte : Nat → UInt8}
    {mem' : ByteMem} (hbase : area.base.toNat ≤ sp.toNat) (hsp : sp.toNat + len ≤ s.sp.toNat)
    (hmem : mem' = fun b => if sp.toNat - area.base.toNat ≤ b ∧
      b < sp.toNat - area.base.toNat + len then byte (b - (sp.toNat - area.base.toNat))
      else s.mem b) : Stacked area mem ⟨mem', sp⟩ (⟨sp.toNat, len, byte⟩ :: ps) := by
  have hlow := h.low
  refine ⟨pairwise_cons.mpr ⟨?_, h.apart⟩, ?_, ?_, ?_, ?_⟩
  · intro p hp
    exact hsp.trans (h.inside p hp).1
  · intro p hp
    rcases mem_cons.mp hp with rfl | hp
    · exact ⟨le_rfl, hsp.trans hlow.2⟩
    · have hinside := h.inside p hp
      dsimp only
      omega
  · intro p hp j hj
    rw [hmem]
    rcases mem_cons.mp hp with rfl | hp
    · dsimp only at hj ⊢
      rw [if_pos (by omega), Nat.add_sub_cancel_left]
    have hinside := h.inside p hp
    dsimp only
    rw [if_neg (by omega)]
    exact h.holds p hp j hj
  · intro b hb
    have hnew := hb _ mem_cons_self
    dsimp only at hnew
    rw [hmem]
    exact (if_neg (by omega)).trans (h.rest b fun p hp => hb p (mem_cons_of_mem _ hp))
  · dsimp only
    omega

omit h in
/-- The offset of an address in the stack, and that it passes the check of `user_vaddr_to_hhdm`. -/
theorem offset_of_mem {addr : UInt64} (hbase : area.base.toNat ≤ addr.toNat)
    (htop : addr.toNat < area.top) : (addr - area.base).toNat = addr.toNat - area.base.toNat ∧
      ¬ addr - area.base ≥ area.size := by
  have hsub : (addr - area.base).toNat = addr.toNat - area.base.toNat :=
    UInt64.toNat_sub_of_le _ _ (UInt64.le_iff_toNat_le.mpr hbase)
  refine ⟨hsub, ?_⟩
  rw [ge_iff_le, UInt64.le_iff_toNat_le, hsub]
  unfold StackArea.top at htop
  omega

/-- A word goes below all that is there. -/
theorem Stacked.push (w : UInt64)
    (hfits : area.base.toNat + 8 ≤ s.sp.toNat) : (s.push area w).sp.toNat = s.sp.toNat - 8 ∧
      Stacked area mem (s.push area w) (wordPieces (s.sp.toNat - 8) [w] ++ ps) := by
  have hsp : (s.sp - 8).toNat = s.sp.toNat - 8 :=
    UInt64.toNat_sub_of_le _ _ (UInt64.le_iff_toNat_le.mpr (le_of_add_le_right hfits))
  have hlow := h.low
  obtain ⟨hoff, hcheck⟩ := @offset_of_mem area (s.sp - 8) (by omega) (by omega)
  unfold UserStack.push UserStack.writeUserPtr
  rw [if_neg hcheck]
  refine ⟨hsp, ?_⟩
  rw [← hsp]
  refine h.put (s.sp - 8) (by omega) (by omega) ?_
  rw [hoff]
  rfl

theorem Stacked.pushWords (ws : List UInt64)
    (hfits : area.base.toNat + 8 * ws.length ≤ s.sp.toNat) :
    (s.pushWords area ws).sp.toNat = s.sp.toNat - 8 * ws.length ∧
      Stacked area mem (s.pushWords area ws) (wordPieces (s.sp.toNat - 8 * ws.length) ws ++ ps) := by
  induction ws with
  | nil => exact ⟨rfl, h⟩
  | cons w ws ih =>
    rw [length_cons] at hfits ⊢
    obtain ⟨hsp, hstacked⟩ := ih (by omega)
    obtain ⟨hsp', hstacked'⟩ := hstacked.push w (by omega)
    rw [hsp] at hsp' hstacked'
    have haddr : s.sp.toNat - 8 * ws.length - 8 = s.sp.toNat - 8 * (ws.length + 1) := by omega
    refine ⟨hsp'.trans haddr, ?_⟩
    rw [wordPieces, show s.sp.toNat - 8 * (ws.length + 1) + 8 = s.sp.toNat - 8 * ws.length by omega,
      ← haddr]
    exact hstacked'

end

/-! ## Strings -/

/-- Where the strings end that are put below `sp`, the last one first. -/
def below (sp : Nat) : List (List UInt8) → Nat
  | [] => sp
  | str :: strs => (below sp strs - (str.length + 1)) / 16 * 16

theorem below_aligned {sp : Nat} (h : sp % 16 = 0) {strs : List (List UInt8)} :
    below sp strs % 16 = 0 := by
  cases strs with
  | nil => exact h
  | cons str strs => exact Nat.mul_mod_left _ _

theorem le_below {b sp : Nat} (hpos : 0 < b) {strs : List (List UInt8)} (h : b ≤ below sp strs) :
    b ≤ sp := by
  induction strs with
  | nil => exact h
  | cons str strs ih =>
    rw [below] at h
    exact ih (by omega)

theorem and_not_15 {x : UInt64} : (x &&& ~~~0xF).toNat = x.toNat / 16 * 16 := by
  have hmask : (~~~0xF : UInt64).toNat = (2 ^ 60 - 1) <<< 4 := by decide
  rw [UInt64.toNat_and, hmask]
  exact Bits.and_high x.toNat_lt

/-- Each string at a multiple of 16, below the one before it. -/
theorem Stacked.pushStrings (h : Stacked area mem s ps) (strs : List (List UInt8))
    (hfits : area.base.toNat ≤ below s.sp.toNat strs) :
    ∃ s' ptrs, s.pushStrings area strs = (s', ptrs) ∧ ptrs.length = strs.length ∧
      s'.sp.toNat = below s.sp.toNat strs ∧ Stacked area mem s' (stringPieces ptrs strs ++ ps) := by
  induction strs with
  | nil => exact ⟨s, [], rfl, rfl, rfl, h⟩
  | cons str strs ih =>
    rw [below] at hfits ⊢
    have hpos := area.pos
    obtain ⟨s', ptrs, heq, hlen, hsp, hstacked⟩ := ih (by omega)
    have hlow := hstacked.low
    have hlt := s'.sp.toNat_lt
    have hof : (UInt64.ofNat (str.length + 1)).toNat = str.length + 1 := by
      rw [UInt64.toNat_ofNat', Nat.mod_eq_of_lt (by omega)]
    have hptr : ((s'.sp - UInt64.ofNat (str.length + 1)) &&& ~~~0xF).toNat =
        (below s.sp.toNat strs - (str.length + 1)) / 16 * 16 := by
      rw [and_not_15, UInt64.toNat_sub_of_le _ _ (UInt64.le_iff_toNat_le.mpr (by omega)), hof, hsp]
    refine ⟨_, _, by rw [UserStack.pushStrings, heq], by rw [length_cons, hlen]; rfl, ?_⟩
    generalize (s'.sp - UInt64.ofNat (str.length + 1)) &&& ~~~0xF = ptr at hptr
    obtain ⟨hoff, hcheck⟩ := @offset_of_mem area ptr (by omega) (by omega)
    unfold UserStack.memcpyToUser
    rw [if_neg hcheck]
    refine ⟨hptr, hstacked.put ptr (by omega) (by omega) ?_⟩
    rw [hoff]
    unfold ByteMem.storeBytes
    rw [length_append]
    rfl

/-! ## The block -/

/-- What the auxiliary vector says about an image and the credentials of its realm. -/
inductive AuxSays (elf : LoadResult) (cred : ProcessCredentials) : UInt64 → UInt64 → Prop
  | phdr : AuxSays elf cred atPhdr elf.phdrVaddr
  | phent : AuxSays elf cred atPhent (UInt64.ofNat elf.phent)
  | phnum : AuxSays elf cred atPhnum (UInt64.ofNat elf.phnum)
  | pagesz : AuxSays elf cred atPagesz 4096
  | noInterp (h : elf.interp = none) : AuxSays elf cred atBase 0
  | interp {entry base : UInt64} (h : elf.interp = some (entry, base)) : AuxSays elf cred atBase base
  | entry : AuxSays elf cred atEntry elf.entryPoint
  | uid : AuxSays elf cred atUid cred.uid.toUInt64
  | euid : AuxSays elf cred atEuid cred.euid.toUInt64
  | gid : AuxSays elf cred atGid cred.gid.toUInt64
  | egid : AuxSays elf cred atEgid cred.egid.toUInt64
  | secure : AuxSays elf cred atSecure 0

/-- The words are an auxiliary vector: a pair for each tag, and then `AT_NULL`. -/
def AuxVector (elf : LoadResult) (cred : ProcessCredentials) (ws : List UInt64) : Prop :=
  ∃ ps, ws = pairWords ps ++ [atNull, atNull] ∧ (ps.map Prod.fst).Nodup ∧
    ∀ tag val, (tag, val) ∈ ps ↔ AuxSays elf cred tag val

/-- The table of the code has what is to be said, and nothing else. -/
theorem mem_auxEntries {elf : LoadResult} {cred : ProcessCredentials} {tag val : UInt64} :
    (tag, val) ∈ auxEntries elf cred ↔ AuxSays elf cred tag val := by
  constructor
  · intro h
    simp only [auxEntries, mem_cons, Prod.mk.injEq, not_mem_nil, or_false] at h
    rcases h with ⟨rfl, rfl⟩ | ⟨rfl, rfl⟩ | ⟨rfl, rfl⟩ | ⟨rfl, rfl⟩ | ⟨rfl, rfl⟩ | ⟨rfl, rfl⟩ |
      ⟨rfl, rfl⟩ | ⟨rfl, rfl⟩ | ⟨rfl, rfl⟩ | ⟨rfl, rfl⟩ | ⟨rfl, rfl⟩
    case inr.inr.inr.inr.inl =>
      rcases hinterp : elf.interp with _ | ⟨entry, base⟩
      · exact .noInterp hinterp
      · exact .interp hinterp
    all_goals constructor
  · intro h
    cases h with
    | noInterp h => simp [auxEntries, h]
    | interp h => simp [auxEntries, h]
    | _ => simp [auxEntries]

theorem auxWords_vector (elf : LoadResult) (cred : ProcessCredentials) :
    AuxVector elf cred (auxWords (some (elf, cred))) :=
  ⟨auxEntries elf cred, rfl, by simp only [auxEntries, map_cons, map_nil]; decide,
    fun _ _ => mem_auxEntries⟩

/-- There is room for the strings, the words and the padding. -/
def StackArea.Fits (area : StackArea) (argv envp : List (List UInt8))
    (aux : Option (LoadResult × ProcessCredentials)) : Prop :=
  area.base.toNat + 8 * ((argv.length + envp.length + 3) % 2 +
    (argv.length + envp.length + 3 + if aux.isSome then 24 else 0)) ≤
      below (below area.top envp) argv

/-- All that is written, with the pointers to the strings. -/
def argPieces (sp : Nat) (argv envp : List (List UInt8)) (aux argvUser envpUser : List UInt64) :
    List Piece :=
  wordPieces sp (UInt64.ofNat argv.length :: (argvUser ++ [0] ++ (envpUser ++ [0] ++ aux))) ++
    (stringPieces argvUser argv ++ stringPieces envpUser envp)

/-- The stack, which had the contents `mem`, is a correct argument block, and the registers point
into it. -/
structure ArgBlock (area : StackArea) (mem : ByteMem) (argv envp : List (List UInt8))
    (aux : Option (LoadResult × ProcessCredentials)) (auxUser argvUser envpUser : List UInt64)
    (r : ArgSetup) : Prop where
  aligned : r.stack.sp.toNat % 16 = 0
  pointers : argvUser.length = argv.length ∧ envpUser.length = envp.length
  noVector : aux = none → auxUser = []
  vector : ∀ elf cred, aux = some (elf, cred) → AuxVector elf cred auxUser
  stacked : Stacked area mem r.stack
    (argPieces r.stack.sp.toNat argv envp auxUser argvUser envpUser)
  rdi : r.rdi.toNat = argv.length
  rsi : r.rsi.toNat = r.stack.sp.toNat + 8
  rdx : r.rdx.toNat = r.stack.sp.toNat + 8 * (argv.length + 2)

theorem pushWords_append {ws ws' : List UInt64} :
    (s.pushWords area ws').pushWords area ws = s.pushWords area (ws ++ ws') :=
  (foldr_append ..).symm

theorem length_auxWords (aux : Option (LoadResult × ProcessCredentials)) :
    (auxWords aux).length = if aux.isSome then 24 else 0 := by
  rcases aux with _ | ⟨elf, cred⟩ <;> rfl

/-- The stack that a program starts with. -/
theorem arg_block_correct (area : StackArea) (mem : ByteMem) (argv envp : List (List UInt8))
    (aux : Option (LoadResult × ProcessCredentials)) (hargv : argv.length ≤ 16)
    (henvp : envp.length ≤ 16) (hfits : area.Fits argv envp aux) :
    ∃ auxUser argvUser envpUser, ArgBlock area mem argv envp aux auxUser argvUser envpUser
      (setupUserArgsAndEnv area mem argv envp aux) := by
  unfold StackArea.Fits at hfits
  have hpos := area.pos
  have hlen := length_auxWords aux
  have heven : (auxWords aux).length % 2 = 0 := by
    rw [hlen]
    split <;> rfl
  rw [← hlen] at hfits
  have haligned : below (below area.top envp) argv % 16 = 0 :=
    below_aligned (below_aligned area.aligned)
  obtain ⟨hsp₀, h₀⟩ := stacked_fresh area mem
  obtain ⟨s₁, envpUser, heq₁, hlen₁, hsp₁, h₁⟩ := h₀.pushStrings envp (by
    rw [hsp₀]
    exact le_below hpos (Nat.le_of_add_right_le hfits))
  rw [hsp₀] at hsp₁
  obtain ⟨s₂, argvUser, heq₂, hlen₂, hsp₂, h₂⟩ := h₁.pushStrings argv (by rw [hsp₁]; omega)
  rw [hsp₁] at hsp₂
  rw [append_nil] at h₂
  -- the padding
  obtain ⟨s₃, heq₃, hsp₃, h₃⟩ : ∃ s₃, (if (argv.length + envp.length + 3) % 2 ≠ 0 then
      { s₂ with sp := s₂.sp - 8 } else s₂) = s₃ ∧
      s₃.sp.toNat = s₂.sp.toNat - 8 * ((argv.length + envp.length + 3) % 2) ∧
      Stacked area mem s₃ (stringPieces argvUser argv ++ stringPieces envpUser envp) := by
    refine ⟨_, rfl, ?_⟩
    split
    · have hsub : (s₂.sp - 8).toNat = s₂.sp.toNat - 8 :=
        UInt64.toNat_sub_of_le _ _ (UInt64.le_iff_toNat_le.mpr (show 8 ≤ s₂.sp.toNat by omega))
      exact ⟨by dsimp only; omega, h₂.lower (by omega) (by omega)⟩
    · exact ⟨by omega, h₂⟩
  have hsetup : setupUserArgsAndEnv area mem argv envp aux =
      { stack := s₃.pushWords area
          (UInt64.ofNat argv.length :: (argvUser ++ [0] ++ (envpUser ++ [0] ++ auxWords aux)))
        rdi := UInt64.ofNat argv.length
        rsi := (s₃.pushWords area (argvUser ++ [0] ++ (envpUser ++ [0] ++ auxWords aux))).sp
        rdx := (s₃.pushWords area (envpUser ++ [0] ++ auxWords aux)).sp } := by
    unfold setupUserArgsAndEnv
    rw [take_of_length_le hargv, take_of_length_le henvp]
    simp only [heq₁, heq₂, heq₃, pushWords_append]
    rfl
  obtain ⟨hsp, hstacked⟩ := h₃.pushWords
    (UInt64.ofNat argv.length :: (argvUser ++ [0] ++ (envpUser ++ [0] ++ auxWords aux)))
    (by simp only [length_cons, length_append, length_nil]; omega)
  obtain ⟨hrsi, -⟩ := h₃.pushWords (argvUser ++ [0] ++ (envpUser ++ [0] ++ auxWords aux))
    (by simp only [length_cons, length_append, length_nil]; omega)
  obtain ⟨hrdx, -⟩ := h₃.pushWords (envpUser ++ [0] ++ auxWords aux)
    (by simp only [length_cons, length_append, length_nil]; omega)
  rw [← hsp] at hstacked
  simp only [length_cons, length_append, length_nil] at hsp hrsi hrdx
  rw [hsetup]
  refine ⟨auxWords aux, argvUser, envpUser, ?_, ⟨hlen₂, hlen₁⟩, ?_, ?_, hstacked, ?_, ?_, ?_⟩
  · dsimp only
    omega
  · rintro rfl
    rfl
  · rintro elf cred rfl
    exact auxWords_vector elf cred
  · rw [UInt64.toNat_ofNat', Nat.mod_eq_of_lt (by omega)]
  · dsimp only
    omega
  · dsimp only
    omega

/-- A program at `0x500000` with an interpreter at `0x40000000`. -/
def lsImage : LoadResult where
  entryPoint := 0x500040
  loadBase := 0x500000
  loadEnd := 0x501000
  loadBias := 0x500000
  isPie := true
  interp := some (0x40000010, 0x40000000)
  phdrVaddr := 0x500040
  phent := 56
  phnum := 3

/-- The arguments `ls -l` and the environment `A=1`, with an auxiliary vector. -/
theorem arg_block_correct_ls :
    StackArea.first.Fits [[108, 115], [45, 108]] [[65, 61, 49]] (some (lsImage, {})) ∧
      ∃ auxUser argvUser envpUser, ArgBlock .first (fun _ => 0) [[108, 115], [45, 108]]
        [[65, 61, 49]] (some (lsImage, {})) auxUser argvUser envpUser (setupUserArgsAndEnv .first
          (fun _ => 0) [[108, 115], [45, 108]] [[65, 61, 49]] (some (lsImage, {}))) := by
  have hfits : StackArea.first.Fits [[108, 115], [45, 108]] [[65, 61, 49]]
      (some (lsImage, {})) := by
    unfold StackArea.Fits
    decide
  exact ⟨hfits, arg_block_correct .first _ _ _ _ (by decide) (by decide) hfits⟩

end Vespera.Exec
