import Vespera.Lib.ByteMem
import Vespera.Lib.PartialMap
import Vespera.Memory.FrameAllocator

/-! # Page tables

`PageTableManager` of `kernel/paging/page_table_manager.cpp`, for the user half of an address
space. A page table is what a walk finds: the frame of every table below the PML4, by its
level and the part of the page number that leads to it, and the leaf entry of every page. The
entries are written to the frames of the tables as well, so that a frame that was a table is
not clean when it is handed on.

The leaf entries carry one field that the hardware does not have: `origin` says how the page
came to be mapped, and for memory that a program asked for, whether it was written since. No
function here reads it.

What the functions change is said once, by two relations:

* `Extends`: frames are taken for new tables, and memory changes in tables and free frames
  only (`mapMemory_spec`);
* `Shrinks`: entries go away, and memory changes in tables only (`unmapMemory_spec`).
-/

namespace Vespera.Memory

open Lib Function

/-! ## Frames and their contents -/

/-- The frame allocator with the physical memory. `freedTwice` remembers that a frame was given
back which the allocator had already. -/
structure Phys where
  alloc : FrameAllocator
  mem : ByteMem
  freedTwice : Bool

/-- The frame of an address. -/
def frameOf (a : Nat) : Nat := a / pageSize * pageSize

namespace Phys

variable (ph : Phys)

/-- `request_page_phys`; the address is 0 when there is no frame. -/
def requestPage : Phys × Nat :=
  ({ ph with alloc := ph.alloc.requestPage.1 }, ph.alloc.requestPage.2)

/-- `request_pages_phys`. -/
def requestPages (n : Nat) : Phys × Nat :=
  ({ ph with alloc := (ph.alloc.requestPages n).1 }, (ph.alloc.requestPages n).2)

/-- `memset(phys_to_virt(addr), 0, size)`. -/
def zero (addr size : Nat) : Phys := { ph with mem := ph.mem.fill addr 0 size }

/-- Write a table entry. -/
def setEntry (table index value : Nat) : Phys :=
  { ph with mem := ph.mem.store 8 (table + 8 * index) value }

/-- The allocator may hand this frame out. -/
def Free (f : Nat) : Prop :=
  f / pageSize < ph.alloc.maxIndex ∧ ph.alloc.used (f / pageSize) = false

instance (f : Nat) : Decidable (ph.Free f) := inferInstanceAs (Decidable (_ ∧ _))

/-- `free_page_phys`. -/
def freePage (addr : Nat) : Phys :=
  { ph with
    alloc := ph.alloc.freePage addr
    freedTwice := ph.freedTwice || decide (ph.Free addr) }

/-- `free_pages_phys`. -/
def freePages (addr n : Nat) : Phys :=
  (List.range n).foldl (fun ph i => ph.freePage (addr + i * pageSize)) ph

end Phys

/-! ## Page tables -/

/-- The stretches of frames that belong to a unit. -/
inductive RunKind where
  | stack
  | userStack
  | tls
deriving DecidableEq, Repr

/-- How a page came to be mapped. -/
inductive Origin where
  /-- Anonymous memory or heap, not written since. -/
  | fresh
  /-- Anonymous memory or heap. -/
  | anon
  /-- The trampoline. -/
  | trampoline
  /-- The `i`-th page of a run of a unit. -/
  | run (u : Nat) (kind : RunKind) (i : Nat)
  /-- A page of an object, by the `mapping`-th `mmap`, with `MAP_SHARED` or without. -/
  | object (mapping : Nat) (shared : Bool) (o page : Nat)
deriving DecidableEq, Repr

/-- A page that is written is not fresh any more. -/
def Origin.written : Origin → Origin
  | .fresh => .anon
  | o => o

/-- A leaf entry. -/
structure Pte where
  frame : Nat
  present : Bool
  writable : Bool
  origin : Origin
deriving DecidableEq, Repr

/-- The bits of a leaf entry: address, user, writable, present. -/
def Pte.bits (e : Pte) : Nat :=
  e.frame + 4 + (if e.writable then 2 else 0) + if e.present then 1 else 0

/-- The tables of an address space. `table l k` is the table of level `l` (3 below the PML4,
1 above the pages) for the page numbers `k * 512 ^ l` up. -/
structure PageTable where
  pml4 : Nat
  table : Nat → Nat → Option Nat
  leaf : Nat → Option Pte

/-- The page number that `PageMapIndexer` sees. -/
def pageOf (va : Nat) : Nat := va / pageSize % 2 ^ 36

namespace PageTable

variable (pt : PageTable)

/-- The table has no entry that is present. -/
def isTableEmpty (level key : Nat) : Bool :=
  (List.range 512).all fun i =>
    if level = 1 then !(pt.leaf (key * 512 + i)).any Pte.present
    else (pt.table (level - 1) (key * 512 + i)).isNone

variable (ph : Phys)

/-- `ensure_table`: the table of a level for a page, made if it is missing. -/
def ensureTable (pt : PageTable) (level page parent : Nat) : Phys × PageTable × Option Nat :=
  let key := page / 512 ^ level
  match pt.table level key with
  | some t => (ph, pt, some t)
  | none =>
    let r := ph.requestPage
    if r.2 = 0 then (r.1, pt, none)
    else
      let table := update pt.table level (update (pt.table level) key (some r.2))
      ((r.1.zero r.2 pageSize).setEntry parent (key % 512) (r.2 + 7), { pt with table := table },
        some r.2)

/-- Write the leaf entry of a page into its table. -/
def setLeaf (pt : PageTable) (t page : Nat) (e : Pte) : Phys × PageTable :=
  (ph.setEntry t (page % 512) e.bits, { pt with leaf := update pt.leaf page (some e) })

/-- `map_memory`. Without a frame for a table nothing is mapped, and nothing is reported. -/
def mapMemory (pt : PageTable) (va pa : Nat) (writable present : Bool)
    (origin : Origin) : Phys × PageTable :=
  let page := pageOf va
  match ensureTable ph pt 3 page pt.pml4 with
  | (ph, pt, none) => (ph, pt)
  | (ph, pt, some pdp) =>
    match ensureTable ph pt 2 page pdp with
    | (ph, pt, none) => (ph, pt)
    | (ph, pt, some pd) =>
      match ensureTable ph pt 1 page pd with
      | (ph, pt, none) => (ph, pt)
      | (ph, pt, some t) => setLeaf ph pt t page ⟨frameOf pa, present, writable, origin⟩

/-- Give back the table of a level, and forget what it leads to. -/
def freeTable (pt : PageTable) (level key t parent : Nat) : Phys × PageTable :=
  ((ph.freePage t).setEntry parent (key % 512) 0,
    { pt with
      table := update pt.table level (update (pt.table level) key none)
      leaf := fun p => if level = 1 ∧ p / 512 = key then none else pt.leaf p })

/-- The end of `unmap_memory`: the tables that have become empty are given back, from the last
level up. -/
def freeEmptyTables (pt : PageTable) (page t pd pdp : Nat) : Phys × PageTable :=
  if pt.isTableEmpty 1 (page / 512) then
    let r := freeTable ph pt 1 (page / 512) t pd
    if r.2.isTableEmpty 2 (page / 512 ^ 2) then
      let r := freeTable r.1 r.2 2 (page / 512 ^ 2) pd pdp
      if r.2.isTableEmpty 3 (page / 512 ^ 3) then
        freeTable r.1 r.2 3 (page / 512 ^ 3) pdp pt.pml4
      else r
    else r
  else (ph, pt)

def unmapMemory (pt : PageTable) (va : Nat) : Phys × PageTable :=
  let page := pageOf va
  match pt.table 3 (page / 512 ^ 3), pt.table 2 (page / 512 ^ 2), pt.table 1 (page / 512) with
  | some pdp, some pd, some t =>
    if (pt.leaf page).any Pte.present then
      freeEmptyTables (ph.setEntry t (page % 512) 0)
        { pt with leaf := update pt.leaf page none } page t pd pdp
    else (ph, pt)
  | _, _, _ => (ph, pt)

/-- The leaf that a walk finds, present or not; the tables above it must be there. -/
def entry (va : Nat) : Option Pte :=
  let page := pageOf va
  if (pt.table 3 (page / 512 ^ 3)).isSome ∧ (pt.table 2 (page / 512 ^ 2)).isSome ∧
      (pt.table 1 (page / 512)).isSome then
    pt.leaf page
  else none

/-- `get_physical_address`; 0 if the page is not mapped. -/
def getPhysicalAddress (va : Nat) : Nat :=
  match pt.entry va with
  | some e => if e.present then e.frame + va % pageSize else 0
  | none => 0

def getPhysicalAddressIgnorePresent (va : Nat) : Nat :=
  match pt.entry va with
  | some e => if e.frame = 0 then 0 else e.frame + va % pageSize
  | none => 0

/-- Mark the page of an address as written. -/
def markWritten (va : Nat) : PageTable :=
  { pt with leaf := update pt.leaf (pageOf va) ((pt.leaf (pageOf va)).map fun e =>
      { e with origin := e.origin.written }) }

/-- `destroy_level` for a table `t`: its pages, or its tables and what they lead to, are given
back, and the entries cleared. -/
def destroyLevel (pt : PageTable) : Nat → Nat → Nat → Phys → Phys
  | 0, _, _, ph => ph
  | level + 1, key, t, ph =>
    (List.range 512).foldl (fun ph i =>
      if level = 0 then
        match pt.leaf (key * 512 + i) with
        | some e => if e.present then (ph.freePage e.frame).setEntry t i 0 else ph
        | none => ph
      else
        match pt.table level (key * 512 + i) with
        | some t' => ((destroyLevel pt level (key * 512 + i) t' ph).freePage t').setEntry t i 0
        | none => ph) ph

/-- `destroy_userspace`: every present page of the user half is given back with its tables,
and then the PML4. -/
def destroyUserspace (pt : PageTable) : Phys :=
  ((List.range 256).foldl (fun ph i =>
    match pt.table 3 i with
    | some t => (destroyLevel pt 3 i t ph).freePage t
    | none => ph) ph).freePage pt.pml4

/-! ## What mapping changes -/

/-- A frame is the PML4 or a table. -/
def InTable (t : Nat) : Prop := t = pt.pml4 ∨ ∃ level key, pt.table level key = some t

/-- The address is in none of the tables. -/
def Outside (a : Nat) : Prop := ∀ t, pt.InTable t → a < t ∨ t + pageSize ≤ a

/-- Frames were taken for new tables; memory changed in tables and in frames that were taken. -/
structure Extends (ph : Phys) (pt : PageTable) (ph' : Phys) (pt' : PageTable) : Prop where
  free : ∀ f, ph'.Free f → ph.Free f
  pml4 : pt'.pml4 = pt.pml4
  table : ∀ level key t, pt'.table level key = some t →
    pt.table level key = some t ∨ (ph.Free t ∧ ¬ ph'.Free t ∧ frameOf t = t)
  mem : ∀ a, pt.Outside a → (ph.Free (frameOf a) → ph'.Free (frameOf a)) → ph'.mem a = ph.mem a

end PageTable

/-- The pages of a stretch of frames are page addresses. -/
theorem frameOf_add_mul {f : Nat} (hf : frameOf f = f) {i : Nat} :
    frameOf (f + i * pageSize) = f + i * pageSize := by
  rw [frameOf, Nat.add_mul_div_right _ _ (by decide), Nat.add_mul]
  exact congrArg (· + i * pageSize) hf

/-- The addresses of a frame's page have that frame. -/
theorem frameOf_eq {f a : Nat} (hf : frameOf f = f) (h : f ≤ a) (h' : a < f + pageSize) :
    frameOf a = f := by
  have hdiv : a / pageSize = f / pageSize := by
    refine Nat.div_eq_of_lt_le (hf.trans_le h) ?_
    rw [Nat.add_mul, Nat.one_mul]
    exact h'.trans_eq (congrArg (· + pageSize) hf.symm)
  rw [frameOf, hdiv]
  exact hf

/-- The other addresses lie outside of it. -/
theorem outside_of_frameOf_ne {f a : Nat} (hf : frameOf f = f) (h : frameOf a ≠ f) :
    a < f ∨ f + pageSize ≤ a := by
  by_contra hin
  exact h (frameOf_eq hf (by omega) (by omega))

namespace Phys

@[simp] theorem requestPages_alloc {ph : Phys} {n : Nat} :
    (ph.requestPages n).1.alloc = (ph.alloc.requestPages n).1 := rfl

@[simp] theorem requestPages_snd {ph : Phys} {n : Nat} :
    (ph.requestPages n).2 = (ph.alloc.requestPages n).2 := rfl

/-- A frame that was handed out was free, and is not any more. -/
structure Taken (ph ph' : Phys) (f n : Nat) : Prop where
  aligned : frameOf f = f
  was : ∀ i, i < n → ph.Free (f + i * pageSize)
  now : ∀ i, i < n → ¬ ph'.Free (f + i * pageSize)

theorem requestPages_free (ph : Phys) (n : Nat) {f : Nat} (h : (ph.requestPages n).1.Free f) :
    ph.Free f := by
  obtain ⟨hlt, hfree⟩ := h
  have hmax : (ph.requestPages n).1.alloc.maxIndex = ph.alloc.maxIndex :=
    FrameAllocator.requestPages_maxIndex
  refine ⟨hmax ▸ hlt, ?_⟩
  by_contra hused
  rw [Bool.not_eq_false] at hused
  rw [requestPages_alloc, FrameAllocator.requestPages_mono hused] at hfree
  cases hfree

theorem requestPages_taken {ph : Phys} {n : Nat} (h : (ph.requestPages n).2 ≠ 0) :
    Taken ph (ph.requestPages n).1 (ph.requestPages n).2 n := by
  obtain ⟨i, hi, hgranted⟩ := FrameAllocator.requestPages_ok h
  have hindex : ∀ j, ((ph.requestPages n).2 + j * pageSize) / pageSize = i + j := by
    intro j
    rw [requestPages_snd, hi, ← Nat.add_mul, Nat.mul_div_cancel _ (by decide)]
  refine ⟨?_, ?_, ?_⟩
  · rw [requestPages_snd, hi, frameOf, Nat.mul_div_cancel _ (by decide)]
  · intro j hj
    obtain ⟨hfree, hlt⟩ := hgranted.free (i + j) (by omega) (by omega)
    exact ⟨(hindex j).symm ▸ hlt, (hindex j).symm ▸ hfree⟩
  · rintro j hj ⟨-, hfree⟩
    rw [hindex j, requestPages_alloc, hgranted.used (i + j)] at hfree
    simp [hj] at hfree

theorem requestPage_free (ph : Phys) {f : Nat} (h : ph.requestPage.1.Free f) : ph.Free f :=
  requestPages_free ph 1 h

/-- The frame that `request_page_phys` hands out. -/
theorem requestPage_taken {ph : Phys} (h : ph.requestPage.2 ≠ 0) :
    frameOf ph.requestPage.2 = ph.requestPage.2 ∧ ph.Free ph.requestPage.2 ∧
      ¬ ph.requestPage.1.Free ph.requestPage.2 := by
  obtain ⟨haligned, hwas, hnow⟩ := requestPages_taken (n := 1) h
  have hwas := hwas 0 Nat.one_pos
  have hnow := hnow 0 Nat.one_pos
  exact ⟨haligned, hwas, hnow⟩

theorem setEntry_mem {ph : Phys} {t index value a : Nat} (hindex : index < 512)
    (h : a < t ∨ t + pageSize ≤ a) : (ph.setEntry t index value).mem a = ph.mem a := by
  refine ByteMem.store_of_not_mem ?_
  simp only [pageSize] at h
  omega

theorem zero_mem {ph : Phys} {f n a : Nat} (h : a < f ∨ f + n ≤ a) :
    (ph.zero f n).mem a = ph.mem a :=
  ByteMem.fill_of_not_mem h

end Phys

namespace PageTable

variable {ph ph' ph'' : Phys} {pt pt' pt'' : PageTable}

theorem Extends.refl : Extends ph pt ph pt :=
  ⟨fun _ h => h, rfl, fun _ _ _ h => .inl h, fun _ _ _ => rfl⟩

section

variable (h : Extends ph pt ph' pt')

include h

/-- New tables lie in frames that were free. -/
theorem Extends.inTable {t : Nat} (ht : pt'.InTable t) :
    pt.InTable t ∨ (ph.Free t ∧ ¬ ph'.Free t ∧ frameOf t = t) := by
  rcases ht with rfl | ⟨level, key, ht⟩
  · exact .inl (.inl h.pml4)
  · rcases h.table level key t ht with hold | hnew
    · exact .inl (.inr ⟨level, key, hold⟩)
    · exact .inr hnew

theorem Extends.outside {a : Nat} (ha : pt.Outside a)
    (hfree : ph.Free (frameOf a) → ph'.Free (frameOf a)) : pt'.Outside a := by
  intro t ht
  rcases h.inTable ht with hold | ⟨hwas, hnow, haligned⟩
  · exact ha t hold
  · refine outside_of_frameOf_ne haligned fun heq => ?_
    rw [heq] at hfree
    exact hnow (hfree hwas)

theorem Extends.trans (h' : Extends ph' pt' ph'' pt'') : Extends ph pt ph'' pt'' where
  free f hf := h.free f (h'.free f hf)
  pml4 := h'.pml4.trans h.pml4
  table level key t ht := by
    rcases h'.table level key t ht with hold | ⟨hwas, hnow, haligned⟩
    · rcases h.table level key t hold with hold | ⟨hwas, hnow, haligned⟩
      · exact .inl hold
      · exact .inr ⟨hwas, fun hf => hnow (h'.free t hf), haligned⟩
    · exact .inr ⟨h.free t hwas, hnow, haligned⟩
  mem a ha hfree := by
    have hfirst : ph.Free (frameOf a) → ph'.Free (frameOf a) := fun hf => h'.free _ (hfree hf)
    have hsecond := h'.mem a (h.outside ha hfirst) fun hf => hfree (h.free _ hf)
    exact hsecond.trans (h.mem a ha hfirst)

end

/-- Writing an entry of a table, with the leaf that it stands for. -/
theorem extends_setEntry {t index value : Nat} (ht : pt.InTable t) (hindex : index < 512)
    {leaf : Nat → Option Pte} :
    Extends ph pt (ph.setEntry t index value) { pt with leaf := leaf } :=
  ⟨fun _ h => h, rfl, fun _ _ _ h => .inl h, fun _ ha _ => Phys.setEntry_mem hindex (ha t ht)⟩

/-- A page table with one of its tables changed. -/
abbrev withTable (pt : PageTable) (level key : Nat) (t : Option Nat) : PageTable :=
  { pt with table := update pt.table level (update (pt.table level) key t) }

theorem withTable_table {level key l k : Nat} {t : Option Nat} {f : Nat}
    (h : (pt.withTable level key t).table l k = some f) :
    pt.table l k = some f ∨ (l = level ∧ k = key ∧ t = some f) := by
  by_cases hl : l = level
  · subst hl
    by_cases hk : k = key
    · subst hk
      exact .inr ⟨rfl, rfl, by simpa using h⟩
    · exact .inl (by simpa [hk] using h)
  · exact .inl (by simpa [hl] using h)

/-- `ensure_table` makes a table at most; what it returns is a table. -/
theorem ensureTable_spec {level page : Nat} {parent : Nat} (hparent : pt.InTable parent) :
    ∃ ph' pt' r, ensureTable ph pt level page parent = (ph', pt', r) ∧ Extends ph pt ph' pt' ∧
      pt'.leaf = pt.leaf ∧ ∀ t, r = some t → pt'.InTable t := by
  unfold ensureTable
  dsimp only
  cases htable : pt.table level (page / 512 ^ level) with
  | some t => exact ⟨_, _, _, rfl, .refl, rfl, fun t' ht' => Option.some.inj ht' ▸ .inr ⟨_, _, htable⟩⟩
  | none =>
    by_cases hnull : ph.requestPage.2 = 0
    · rw [if_pos hnull]
      refine ⟨_, _, _, rfl, ⟨fun f hf => ph.requestPage_free hf, rfl, fun _ _ _ h => .inl h,
        fun _ _ _ => rfl⟩, rfl, fun t ht => by cases ht⟩
    rw [if_neg hnull]
    obtain ⟨haligned, hwas, hnow⟩ := Phys.requestPage_taken hnull
    refine ⟨_, _, _, rfl, ⟨fun f hf => ph.requestPage_free hf, rfl, ?_, ?_⟩, rfl, ?_⟩
    · -- the new table is the only one that was not there before
      intro l k t ht
      rcases withTable_table ht with hold | ⟨-, -, ⟨⟩⟩
      · exact .inl hold
      · exact .inr ⟨hwas, hnow, haligned⟩
    · intro a ha hfree
      have hnew : a < ph.requestPage.2 ∨ ph.requestPage.2 + pageSize ≤ a := by
        refine outside_of_frameOf_ne haligned fun heq => ?_
        rw [heq] at hfree
        exact hnow (hfree hwas)
      rw [Phys.setEntry_mem (Nat.mod_lt _ (by decide)) (ha parent hparent), Phys.zero_mem hnew]
      rfl
    · intro t ht
      cases ht
      exact .inr ⟨level, page / 512 ^ level, by simp⟩

/-- `map_memory` makes tables, from the third level down, and then, if it comes to that, the entry:
`P` holds before each of these steps and `Q` at the end. -/
theorem mapMemory_rule {va pa : Nat} {writable present : Bool} {origin : Origin}
    {P : Nat → Nat → Phys → PageTable → Prop} {Q : Phys → PageTable → Prop} (h : P 3 pt.pml4 ph pt)
    (htable : ∀ {level parent ph pt ph' pt' t}, P (level + 1) parent ph pt →
      ensureTable ph pt (level + 1) (pageOf va) parent = (ph', pt', t) →
        (t = none → Q ph' pt') ∧ ∀ f, t = some f → P level f ph' pt')
    (hleaf : ∀ {t ph pt}, P 0 t ph pt →
      Q (setLeaf ph pt t (pageOf va) ⟨frameOf pa, present, writable, origin⟩).1
        (setLeaf ph pt t (pageOf va) ⟨frameOf pa, present, writable, origin⟩).2) :
    Q (mapMemory ph pt va pa writable present origin).1
      (mapMemory ph pt va pa writable present origin).2 := by
  unfold mapMemory
  dsimp only
  split
  · next hx => exact (htable h hx).1 rfl
  next hx =>
  have h₂ := (htable h hx).2 _ rfl
  split
  · next hy => exact (htable h₂ hy).1 rfl
  next hy =>
  have h₁ := (htable h₂ hy).2 _ rfl
  split
  · next hz => exact (htable h₁ hz).1 rfl
  · next hz => exact hleaf ((htable h₁ hz).2 _ rfl)

theorem mapMemory_spec (ph : Phys) (pt : PageTable) (va pa : Nat) (writable present : Bool)
    (origin : Origin) : ∃ ph' pt', mapMemory ph pt va pa writable present origin = (ph', pt') ∧
      Extends ph pt ph' pt' ∧ (pt'.leaf = pt.leaf ∨ pt'.leaf =
        update pt.leaf (pageOf va) (some ⟨frameOf pa, present, writable, origin⟩)) := by
  refine ⟨_, _, rfl, mapMemory_rule (Q := fun ph' pt' => Extends ph pt ph' pt' ∧
      (pt'.leaf = pt.leaf ∨ pt'.leaf = update pt.leaf (pageOf va) _))
    (P := fun _ parent ph' pt' => pt'.InTable parent ∧ Extends ph pt ph' pt' ∧
      pt'.leaf = pt.leaf) ⟨.inl rfl, .refl, rfl⟩ ?_ ?_⟩
  · rintro level parent ph1 pt1 ph2 pt2 t ⟨hparent, hext, hleaf⟩ hx
    obtain ⟨_, _, _, heq, hext', hleaf', ht⟩ := ensureTable_spec hparent
    cases hx.symm.trans heq
    have hboth := And.intro (hext.trans hext') (hleaf'.trans hleaf)
    exact ⟨fun _ => ⟨hboth.1, .inl hboth.2⟩, fun f hf => ⟨ht f hf, hboth⟩⟩
  · rintro t ph1 pt1 ⟨ht, hext, hleaf⟩
    refine ⟨hext.trans (extends_setEntry ht (Nat.mod_lt _ (by decide))), .inr ?_⟩
    simp only [setLeaf, hleaf]

/-- Where there is an entry, `map_memory` replaces it and makes no table. -/
theorem mapMemory_of_entry {va : Nat} {e : Pte} (h : pt.entry va = some e) (ph : Phys) (pa : Nat)
    (writable present : Bool) (origin : Origin) :
    ∃ t, pt.InTable t ∧ mapMemory ph pt va pa writable present origin =
      setLeaf ph pt t (pageOf va) ⟨frameOf pa, present, writable, origin⟩ := by
  unfold entry at h
  dsimp only at h
  split_ifs at h with htables
  obtain ⟨h3, h2, h1⟩ := htables
  obtain ⟨t3, h3⟩ := Option.isSome_iff_exists.mp h3
  obtain ⟨t2, h2⟩ := Option.isSome_iff_exists.mp h2
  obtain ⟨t1, h1⟩ := Option.isSome_iff_exists.mp h1
  refine ⟨t1, .inr ⟨1, _, h1⟩, ?_⟩
  have h1 : pt.table 1 (pageOf va / 512 ^ 1) = some t1 := h1
  simp only [mapMemory, ensureTable, h3, h2, h1]

/-! ## What unmapping changes -/

/-- Entries went away; memory changed in tables only. -/
structure Shrinks (ph : Phys) (pt : PageTable) (ph' : Phys) (pt' : PageTable) : Prop where
  pml4 : pt'.pml4 = pt.pml4
  table : ∀ level key t, pt'.table level key = some t → pt.table level key = some t
  leaf : ∀ p e, pt'.leaf p = some e → pt.leaf p = some e
  mem : ∀ a, pt.Outside a → ph'.mem a = ph.mem a

theorem Shrinks.refl : Shrinks ph pt ph pt :=
  ⟨rfl, fun _ _ _ h => h, fun _ _ h => h, fun _ _ => rfl⟩

theorem Shrinks.outside (h : Shrinks ph pt ph' pt') {a : Nat} (ha : pt.Outside a) :
    pt'.Outside a := by
  intro t ht
  rcases ht with rfl | ⟨level, key, ht⟩
  · exact ha _ (.inl h.pml4)
  · exact ha t (.inr ⟨level, key, h.table level key t ht⟩)

theorem Shrinks.trans (h : Shrinks ph pt ph' pt') (h' : Shrinks ph' pt' ph'' pt'') :
    Shrinks ph pt ph'' pt'' where
  pml4 := h'.pml4.trans h.pml4
  table level key t ht := h.table level key t (h'.table level key t ht)
  leaf p e he := h.leaf p e (h'.leaf p e he)
  mem a ha := (h'.mem a (h.outside ha)).trans (h.mem a ha)

theorem shrinks_freeTable (level key t : Nat) {parent : Nat} (hparent : pt.InTable parent) :
    Shrinks ph pt (freeTable ph pt level key t parent).1
    (freeTable ph pt level key t parent).2 := by
  refine ⟨rfl, ?_, ?_, ?_⟩
  · intro l k t' ht'
    rcases withTable_table ht' with hold | ⟨-, -, ⟨⟩⟩
    exact hold
  · intro p e he
    simp only [freeTable] at he
    split_ifs at he
    exact he
  · intro a ha
    exact Phys.setEntry_mem (Nat.mod_lt _ (by decide)) (ha parent hparent)

/-- Tables of the other levels stay. -/
theorem freeTable_table_of_ne {level key t parent l k : Nat} (h : l ≠ level) :
    (freeTable ph pt level key t parent).2.table l k = pt.table l k := by
  simp only [freeTable]
  rw [update_of_ne h]

theorem shrinks_clearLeaf (ph : Phys) (page : Nat) {t : Nat} (ht : pt.InTable t) :
    Shrinks ph pt (ph.setEntry t (page % 512) 0) { pt with leaf := update pt.leaf page none } := by
  refine ⟨rfl, fun _ _ _ h => h, ?_, fun a ha => Phys.setEntry_mem (Nat.mod_lt _ (by decide)) (ha t ht)⟩
  intro p e he
  rcases update_eq_some he with ⟨-, ⟨⟩⟩ | ⟨-, hold⟩
  exact hold

theorem shrinks_freeEmptyTables {page t pd pdp : Nat} (hpd : pt.InTable pd)
    (hpdp : pt.table 3 (page / 512 ^ 3) = some pdp) :
    Shrinks ph pt (freeEmptyTables ph pt page t pd pdp).1
      (freeEmptyTables ph pt page t pd pdp).2 := by
  unfold freeEmptyTables
  split_ifs with hempty
  · have hlast : Shrinks ph pt _ _ := shrinks_freeTable 1 (page / 512) t hpd
    dsimp only
    split_ifs
    · refine hlast.trans (.trans (shrinks_freeTable _ _ _ ?_) (shrinks_freeTable _ _ _ (.inl rfl)))
      exact .inr ⟨3, _, (freeTable_table_of_ne (show 3 ≠ 1 by decide)).trans hpdp⟩
    · refine hlast.trans (shrinks_freeTable _ _ _ ?_)
      exact .inr ⟨3, _, (freeTable_table_of_ne (show 3 ≠ 1 by decide)).trans hpdp⟩
    · exact hlast
  · exact .refl

/-- What `entry` finds is a leaf. -/
theorem leaf_of_entry {va : Nat} {e : Pte} (h : pt.entry va = some e) :
    pt.leaf (pageOf va) = some e := by
  unfold entry at h
  dsimp only at h
  split_ifs at h
  exact h

/-- Writing to a page ends its freshness, and changes nothing else about the entries. -/
theorem markWritten_leaf {va p : Nat} {e' : Pte} (h : (pt.markWritten va).leaf p = some e') :
    ∃ e, pt.leaf p = some e ∧ e.frame = e'.frame ∧ e.present = e'.present ∧
      ((p = pageOf va ∧ e'.origin = e.origin.written) ∨ (p ≠ pageOf va ∧ e' = e)) := by
  unfold markWritten at h
  dsimp only at h
  rcases update_eq_some h with ⟨rfl, hnew⟩ | ⟨hp, hold⟩
  · obtain ⟨e, he, rfl⟩ := Option.map_eq_some_iff.mp hnew
    exact ⟨e, he, rfl, rfl, .inl ⟨rfl, rfl⟩⟩
  · exact ⟨e', hold, rfl, rfl, .inr ⟨hp, rfl⟩⟩

theorem unmapMemory_spec (ph : Phys) (pt : PageTable) (va : Nat) :
    Shrinks ph pt (unmapMemory ph pt va).1 (unmapMemory ph pt va).2 := by
  unfold unmapMemory
  dsimp only
  split
  · rename_i pdp pd t hpdp hpd ht
    split_ifs
    · exact (shrinks_clearLeaf ph (pageOf va) (.inr ⟨1, _, ht⟩)).trans
        (shrinks_freeEmptyTables (.inr ⟨2, _, hpd⟩) hpdp)
    · exact .refl
  · exact .refl

end PageTable

end Vespera.Memory
