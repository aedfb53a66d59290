import Vespera.Lib.Bits
import Vespera.Memory.PageTable

/-! # Page tables in physical memory

`PageTableManager` at the level of its words: a table is a frame of 512 entries, an entry is a
64-bit word with an address in bits 12 to 51 and flags around it, and every function finds its
way by reading entries. `PageTable` has the same functions over tables that are found by their
level and page numbers; here the tables are what the memory says.

The second half is the arithmetic of entries: an entry made of a page address and flags gives
both back (`getAddress_or`, `getFlag_or`), and the loop of `map_memory` that sets the flags one
by one sets the bits of the flag word (`withFlags_eq`).
-/

namespace Vespera.Paging

open Lib Memory

/-! ## Entries -/

def getFlag (v flag : Nat) : Bool := v.testBit flag

/-- `PageDirectoryEntry::set_flag` with `enabled`. -/
def setFlag (v flag : Nat) : Nat := v &&& (2 ^ 64 - (2 ^ flag + 1)) ||| 2 ^ flag

def getAddress (v : Nat) : Nat := v &&& 0x000ffffffffff000

def setAddress (v pa : Nat) : Nat :=
  v &&& 0xfff0000000000fff ||| ((pa >>> 12) &&& 0x000000ffffffffff) <<< 12

def present : Nat := 0

def readWrite : Nat := 1

def userSuper : Nat := 2

/-- The entry `ensure_table` makes for a new table. -/
def tableEntry (pa : Nat) : Nat :=
  setFlag (setFlag (setFlag (setAddress 0 pa) present) readWrite) userSuper

/-- The loop of `map_memory` over the bits of `flags`. -/
def withFlags (v flags : Nat) : Nat :=
  (List.range 64).foldl (fun v bit => if flags.testBit bit then setFlag v bit else v) v

/-! ## Tables -/

variable (ph : Phys)

/-- `table->entries[i]` -/
def entry (table i : Nat) : Nat := ph.mem.load 8 (table + 8 * i)

/-- The index of `PageMapIndexer` for the tables of a level: 3 for the entries of the PML4, 0 for
those of the last tables. -/
def index (va level : Nat) : Nat := va / pageSize / 512 ^ level % 512

/-- `ensure_table`; `none` when no frame is left for a new table. -/
def ensureTable (parent i : Nat) : Phys × Option Nat :=
  let snap := entry ph parent i
  if !getFlag snap present then
    let r := ph.requestPage
    if r.2 = 0 then (r.1, none)
    else ((r.1.zero r.2 pageSize).setEntry parent i (tableEntry r.2), some r.2)
  else (ph, some (getAddress snap))

/-- `map_memory`; the second part says whether the entry was written. -/
def mapMemory (pml4 va pa flags : Nat) (isPresent : Bool) : Phys × Bool :=
  match ensureTable ph pml4 (index va 3) with
  | (ph, none) => (ph, false)
  | (ph, some pdp) =>
    match ensureTable ph pdp (index va 2) with
    | (ph, none) => (ph, false)
    | (ph, some pd) =>
      match ensureTable ph pd (index va 1) with
      | (ph, none) => (ph, false)
      | (ph, some pt) =>
        let flags := if isPresent then flags ||| 2 ^ present else flags
        (ph.setEntry pt (index va 0) (withFlags (setAddress 0 pa) flags), true)

def isTableEmpty (table : Nat) : Bool :=
  (List.range 512).all fun i => !getFlag (entry ph table i) present

/-- Give back the table that an entry names, and clear the entry. -/
def freeTable (parent i : Nat) : Phys :=
  (ph.freePage (getAddress (entry ph parent i))).setEntry parent i 0

/-- The tables that `unmap_memory` and the two lookups walk through: PDP, PD and PT, if they are
there. -/
def tables (pml4 va : Nat) : Option (Nat × Nat × Nat) :=
  let pml4Entry := entry ph pml4 (index va 3)
  if !getFlag pml4Entry present then none
  else
    let pdp := getAddress pml4Entry
    let pdpEntry := entry ph pdp (index va 2)
    if !getFlag pdpEntry present then none
    else
      let pd := getAddress pdpEntry
      let pdEntry := entry ph pd (index va 1)
      if !getFlag pdEntry present then none else some (pdp, pd, getAddress pdEntry)

/-- The end of `unmap_memory`: the tables that have become empty are given back, from the last
level up. -/
def freeEmptyTables (pml4 pdp pd pt va : Nat) : Phys :=
  if !isTableEmpty ph pt then ph
  else
    let ph := freeTable ph pd (index va 1)
    if !isTableEmpty ph pd then ph
    else
      let ph := freeTable ph pdp (index va 2)
      if !isTableEmpty ph pdp then ph else freeTable ph pml4 (index va 3)

def unmapMemory (pml4 va : Nat) : Phys :=
  match tables ph pml4 va with
  | none => ph
  | some (pdp, pd, pt) =>
    if !getFlag (entry ph pt (index va 0)) present then ph
    else freeEmptyTables (ph.setEntry pt (index va 0) 0) pml4 pdp pd pt va

/-- The last entry on the way to an address, if there are tables up to it. -/
def leafEntry (pml4 va : Nat) : Option Nat :=
  match tables ph pml4 va with
  | none => none
  | some (_, _, pt) => some (entry ph pt (index va 0))

def getPhysicalAddress (pml4 va : Nat) : Nat :=
  match leafEntry ph pml4 va with
  | none => 0
  | some pde => if !getFlag pde present then 0 else getAddress pde + va % pageSize

def getPhysicalAddressIgnorePresent (pml4 va : Nat) : Nat :=
  match leafEntry ph pml4 va with
  | none => 0
  | some pde => if getAddress pde = 0 then 0 else getAddress pde + va % pageSize

/-! ## The arithmetic of entries -/

/-- A page address that an entry can hold. -/
def PageAddr (pa : Nat) : Prop := pa % pageSize = 0 ∧ pa < 2 ^ 52

/-- A word that holds flags and no part of an address. -/
def FlagWord (flags : Nat) : Prop := flags &&& 0x000ffffffffff000 = 0 ∧ flags < 2 ^ 64

instance (pa : Nat) : Decidable (PageAddr pa) := inferInstanceAs (Decidable (_ ∧ _))

instance (flags : Nat) : Decidable (FlagWord flags) := inferInstanceAs (Decidable (_ ∧ _))

theorem getAddress_eq {v : Nat} : getAddress v = v / 2 ^ 12 % 2 ^ 40 * 2 ^ 12 :=
  Bits.and_field v 40 12

variable {pa : Nat}

theorem getAddress_of_pageAddr (h : PageAddr pa) : getAddress pa = pa := by
  obtain ⟨halign, hlt⟩ := h
  simp only [pageSize] at halign
  rw [getAddress_eq]
  omega

/-- The address of an entry made of a page address and flags. -/
theorem getAddress_or {flags : Nat} (hpa : PageAddr pa) (hflags : FlagWord flags) :
    getAddress (pa ||| flags) = pa := by
  have hdist : getAddress (pa ||| flags) = getAddress pa ||| (flags &&& 0x000ffffffffff000) :=
    Nat.and_or_distrib_right pa flags _
  rw [hdist, hflags.1, Nat.or_zero, getAddress_of_pageAddr hpa]

theorem testBit_pageAddr {i : Nat} (h : PageAddr pa) (hi : i < 12) : pa.testBit i = false := by
  have hmul : pa = pa / 2 ^ 12 * 2 ^ 12 := by
    have halign := h.1
    simp only [pageSize] at halign
    omega
  rw [hmul, Nat.testBit_mul_two_pow]
  simp [hi]

/-- The flags of an entry made of a page address and flags. -/
theorem getFlag_or {flags i : Nat} (hpa : PageAddr pa) (hi : i < 12) :
    getFlag (pa ||| flags) i = flags.testBit i := by
  rw [getFlag, Nat.testBit_or, testBit_pageAddr hpa hi, Bool.false_or]

theorem setFlag_eq {v flag : Nat} (hv : v < 2 ^ 64) (hflag : flag < 64) :
    setFlag v flag = v ||| 2 ^ flag := by
  apply Nat.eq_of_testBit_eq
  intro i
  have hle : 2 ^ flag < 2 ^ 64 := Nat.pow_lt_pow_right (by decide) hflag
  rw [setFlag, Nat.testBit_or, Nat.testBit_and, Nat.testBit_two_pow_sub_succ hle, Nat.testBit_or]
  by_cases hi : i < 64
  · cases hbit : (2 ^ flag).testBit i <;> simp [hi]
  have hfalse : v.testBit i = false :=
    Nat.testBit_lt_two_pow (Nat.lt_of_lt_of_le hv (Nat.pow_le_pow_right (by decide) (by omega)))
  rw [hfalse]
  simp

theorem setFlag_lt {v flag : Nat} (hv : v < 2 ^ 64) (hflag : flag < 64) :
    setFlag v flag < 2 ^ 64 := by
  rw [setFlag_eq hv hflag]
  exact Nat.or_lt_two_pow hv (Nat.pow_lt_pow_right (by decide) hflag)

/-- Setting the first bits of a flag word one by one. -/
theorem foldl_setFlag {v flags : Nat} (hv : v < 2 ^ 64) {n : Nat} (hn : n ≤ 64) :
    (List.range n).foldl (fun v bit => if flags.testBit bit then setFlag v bit else v) v =
      v ||| flags % 2 ^ n := by
  induction n with
  | zero => simp [Nat.mod_one]
  | succ n ih =>
    have hlt : v ||| flags % 2 ^ n < 2 ^ 64 := by
      refine Nat.or_lt_two_pow hv (Nat.lt_of_lt_of_le (Nat.mod_lt _ (Nat.two_pow_pos n)) ?_)
      exact Nat.pow_le_pow_right (by decide) (by omega)
    rw [List.range_succ, List.foldl_append, ih (by omega)]
    simp only [List.foldl_cons, List.foldl_nil]
    -- the bit that is added is bit `n`
    rw [Nat.mod_pow_succ, ← Nat.toNat_testBit, Nat.add_comm,
      Nat.two_pow_add_eq_or_of_lt (Nat.mod_lt _ (Nat.two_pow_pos n)), Nat.or_comm (2 ^ n * _)]
    cases flags.testBit n with
    | false => simp
    | true =>
      rw [if_pos rfl, setFlag_eq hlt (by omega), Nat.or_assoc]
      simp

/-- The loop of `map_memory` sets the bits of the flag word. -/
theorem withFlags_eq {v flags : Nat} (hv : v < 2 ^ 64) (hflags : flags < 2 ^ 64) :
    withFlags v flags = v ||| flags := by
  rw [withFlags, foldl_setFlag hv (Nat.le_refl 64), Nat.mod_eq_of_lt hflags]

section

variable (h : PageAddr pa)

include h

theorem setAddress_zero : setAddress 0 pa = pa := by
  obtain ⟨halign, hlt⟩ := h
  have hmask : (pa >>> 12) &&& 0x000000ffffffffff = pa / 2 ^ 12 := by
    rw [show (0x000000ffffffffff : Nat) = 2 ^ 40 - 1 from rfl, Nat.and_two_pow_sub_one_eq_mod,
      Nat.shiftRight_eq_div_pow]
    exact Nat.mod_eq_of_lt (by omega)
  rw [setAddress, hmask, Nat.zero_and, Nat.zero_or, Nat.shiftLeft_eq]
  simp only [pageSize] at halign
  omega

theorem PageAddr.lt : pa < 2 ^ 64 := Nat.lt_of_lt_of_le h.2 (by decide)

/-- The entry of a new table: its address, present, writable, for users. -/
theorem tableEntry_eq : tableEntry pa = pa ||| 7 := by
  have h0 := setFlag_lt h.lt (show present < 64 by decide)
  have h1 := setFlag_lt h0 (show readWrite < 64 by decide)
  rw [tableEntry, setAddress_zero h, setFlag_eq h1 (by decide), setFlag_eq h0 (by decide),
    setFlag_eq h.lt (by decide), Nat.or_assoc, Nat.or_assoc]
  rfl

theorem getAddress_tableEntry : getAddress (tableEntry pa) = pa := by
  rw [tableEntry_eq h]
  exact getAddress_or h (by decide)

theorem getFlag_tableEntry : getFlag (tableEntry pa) present := by
  rw [tableEntry_eq h, getFlag_or h (by decide)]
  rfl

theorem tableEntry_lt : tableEntry pa < 2 ^ 64 := by
  rw [tableEntry_eq h]
  exact Nat.or_lt_two_pow h.lt (by decide)

end

/-! ## Entries in memory -/

section Memory

variable {ph : Phys} {t u i j v : Nat}

theorem entry_setEntry_self (hv : v < 2 ^ 64) : entry (ph.setEntry t i v) t i = v := by
  rw [entry, Phys.setEntry, ByteMem.load_store_self]
  exact Nat.mod_eq_of_lt hv

/-- Writing an entry leaves the others alone. -/
theorem entry_setEntry_of_ne (ht : frameOf t = t) (hu : frameOf u = u) (hi : i < 512) (hj : j < 512)
    (hne : u ≠ t ∨ j ≠ i) : entry (ph.setEntry t i v) u j = entry ph u j := by
  rw [entry, Phys.setEntry]
  apply ByteMem.load_store_of_disjoint
  simp only [frameOf, pageSize] at ht hu
  omega

/-- A new table has no entries. -/
theorem entry_zero_self (hi : i < 512) : entry (ph.zero t pageSize) t i = 0 := by
  apply ByteMem.load_fill_zero
  simp only [pageSize]
  omega

theorem entry_zero_of_ne (ht : frameOf t = t) (hu : frameOf u = u) (hj : j < 512) (hne : u ≠ t) :
    entry (ph.zero t pageSize) u j = entry ph u j := by
  apply ByteMem.load_fill_of_disjoint
  simp only [frameOf, pageSize] at ht hu ⊢
  omega

end Memory

end Vespera.Paging
