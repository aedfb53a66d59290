import Vespera.Memory.PageMap

/-! # The two models of the page tables

`PageTable` finds its tables by their level and key, `Paging` reads them from memory. Both write
the same words: when the memory holds the tables of `pt` (`Embodies`), each function of the one
leaves the memory that the same function of the other leaves, and memory and tables stay in step
(`Embodies.mapMemory`, `Embodies.unmapMemory`). So the lookups agree too
(`Embodies.getPhysicalAddress`).
-/

namespace Vespera.Paging

open Lib Memory Function FrameAllocator

/-- The tables of `pt`, with the PML4 as the only one of level 4. -/
def levels (pt : PageTable) : Nat → Nat → Option Nat := setTable pt.table 4 0 (some pt.pml4)

/-- The flags of an entry: user, writable, present. -/
def flagsOf (writable isPresent : Bool) : Nat :=
  4 + (if writable then 2 else 0) + if isPresent then 1 else 0

/-- The entries of `pt` as frames and flags. -/
def leafMap (pt : PageTable) (p : Nat) : Mapping :=
  (pt.leaf p).map fun e => (e.frame, flagsOf e.writable e.present)

/-- The memory holds the tables and the entries of `pt`. -/
def Embodies (ph : Phys) (pt : PageTable) : Prop := Holds ph (levels pt) (leafMap pt) pt.pml4

/-- A call on `pt` and the same call on the memory leave the same memory, and it holds the tables. -/
def Agree (r : Phys × PageTable) (ph : Phys) : Prop := r.1 = ph ∧ Embodies ph r.2

/-- Flags lie below a page address. -/
theorem or_eq_add {pa flags : Nat} (hpa : PageAddr pa) (hflags : flags < 2 ^ 12) :
    pa ||| flags = pa + flags := by
  have hmul : pa = 2 ^ 12 * (pa / 2 ^ 12) := by
    have halign := hpa.1
    simp only [pageSize] at halign
    omega
  rw [hmul, Nat.two_pow_add_eq_or_of_lt hflags]

theorem flagsOf_word (writable isPresent : Bool) : FlagWord (flagsOf writable isPresent) := by
  revert writable isPresent
  decide

variable {ph : Phys} {pt : PageTable} {M : Nat → Mapping} {pml4 l k t : Nat}

theorem levels_of_le (hl : l ≤ 3) : levels pt l k = pt.table l k := setTable_of_ne (by omega)

/-- A change of a table below the PML4. -/
theorem levels_setTable (hl : l ≤ 3) {x : Option Nat} :
    levels { pt with table := update pt.table l (update (pt.table l) k x) } =
      setTable (levels pt) l k x := by
  funext l' k'
  by_cases hlk : l' = l ∧ k' = k
  · obtain ⟨rfl, rfl⟩ := hlk
    rw [setTable_self, levels_of_le hl]
    exact setTable_self _ _ _ _
  rw [setTable_of_ne hlk]
  by_cases hroot : l' = 4 ∧ k' = 0
  · obtain ⟨rfl, rfl⟩ := hroot
    rw [levels, levels, setTable_self, setTable_self]
  · rw [levels, levels, setTable_of_ne hroot, setTable_of_ne hroot]
    exact setTable_of_ne hlk

/-! ## Mapping -/

/-- A request for a frame that fails leaves the tables as they are. -/
theorem Holds.requestPage {T : Nat → Nat → Option Nat} (h : Holds ph T M pml4) :
    Holds ph.requestPage.1 T M pml4 := by
  refine ⟨h.root, h.level, h.up, h.inj, fun l k t ht => ?_, h.inner, h.leaf, h.missing, h.pages,
    requestPage_wf h.wf, requestPage_maxIndex.trans_le h.bound⟩
  obtain ⟨haddr, hne, hused⟩ := h.frame l k t ht
  exact ⟨haddr, hne, requestPages_mono (n := 1) hused⟩

/-- The key of a table, from the key of the one above it. -/
theorem key_child (page l : Nat) :
    page / 512 ^ (l + 1) * 512 + page / 512 ^ l % 512 = page / 512 ^ l := by
  rw [Nat.pow_succ, ← Nat.div_div_eq_div_mul]
  omega

/-- The two models of `ensure_table`. -/
theorem Embodies.ensureTable (h : Embodies ph pt) {page parent : Nat} (hl : 1 ≤ l) (hl3 : l ≤ 3)
    (hp : levels pt (l + 1) (page / 512 ^ (l + 1)) = some parent) :
    ∃ ph' pt' r, pt.ensureTable ph l page parent = (ph', pt', r) ∧
      Paging.ensureTable ph parent (page / 512 ^ l % 512) = (ph', r) ∧ Embodies ph' pt' ∧
      ∀ t, r = some t → levels pt' l (page / 512 ^ l) = some t := by
  have hi : page / 512 ^ l % 512 < 512 := Nat.mod_lt _ (by decide)
  have hentry := h.inner l _ parent _ hp hl hi
  rw [key_child, levels_of_le hl3] at hentry
  unfold PageTable.ensureTable
  dsimp only
  cases htable : pt.table l (page / 512 ^ l) with
  | some u =>
    have hu := (h.frame l _ u ((levels_of_le hl3).trans htable)).1
    refine ⟨ph, pt, some u, rfl, ?_, h, fun t ht => ?_⟩
    · rw [Paging.ensureTable, hentry, htable]
      simp [tableBits, getFlag_tableEntry hu, getAddress_tableEntry hu]
    · rw [levels_of_le hl3, htable, ht]
  | none =>
    have hmissing : Paging.ensureTable ph parent (page / 512 ^ l % 512) =
        if ph.requestPage.2 = 0 then (ph.requestPage.1, none)
        else ((ph.requestPage.1.zero ph.requestPage.2 pageSize).setEntry parent
          (page / 512 ^ l % 512) (tableEntry ph.requestPage.2), some ph.requestPage.2) := by
      rw [Paging.ensureTable, hentry, htable]
      rfl
    by_cases hnull : ph.requestPage.2 = 0
    · rw [if_pos hnull] at hmissing ⊢
      exact ⟨_, pt, none, rfl, hmissing, Holds.requestPage h, fun _ ht => by cases ht⟩
    rw [if_neg hnull] at hmissing ⊢
    have hholds := Holds.ensureTable h hl hl3 hp hi hmissing
    rw [key_child, ← levels_setTable hl3] at hholds
    -- the new table is one of those that are held now, so its frame is a page address
    have hself : levels (pt.withTable l (page / 512 ^ l) (some ph.requestPage.2)) l
        (page / 512 ^ l) = some ph.requestPage.2 :=
      (levels_of_le hl3).trans (setTable_self _ _ _ _)
    have haddr := (hholds.frame l _ _ hself).1
    rw [tableEntry_eq haddr, or_eq_add haddr (by decide)] at hmissing hholds
    refine ⟨_, _, _, rfl, hmissing, hholds, fun t ht => ?_⟩
    rw [← ht]
    exact hself

/-- The word of an entry is the one that `map_memory` writes. -/
theorem bits_eq {e : Pte} (h : PageAddr e.frame) :
    e.frame ||| flagsOf e.writable e.present = e.bits := by
  have hlt : flagsOf e.writable e.present < 2 ^ 12 := by
    generalize e.writable = w, e.present = q
    revert w q
    decide
  rw [or_eq_add h hlt, flagsOf, Pte.bits]
  omega

theorem flags_or_present (writable isPresent : Bool) :
    (if isPresent then flagsOf writable false ||| 2 ^ present else flagsOf writable false) =
      flagsOf writable isPresent := by
  revert writable isPresent
  decide

theorem leafMap_update (page : Nat) (x : Option Pte) :
    leafMap { pt with leaf := update pt.leaf page x } =
      update (leafMap pt) page (x.map fun e => (e.frame, flagsOf e.writable e.present)) :=
  comp_update (Option.map _) pt.leaf page x

/-- The leaf entry is written. -/
theorem Embodies.setLeaf (h : Embodies ph pt) {page : Nat} (ht : levels pt 1 (page / 512) = some t)
    {e : Pte} (he : PageAddr e.frame) :
    Embodies (ph.setEntry t (page % 512) e.bits) { pt with leaf := update pt.leaf page (some e) } := by
  have hleaf := Holds.setLeaf h ht (x := some (e.frame, flagsOf e.writable e.present)) (by
    rintro e' ⟨⟩
    exact ⟨he, flagsOf_word _ _⟩)
  rw [bits, bits_eq he] at hleaf
  rwa [Embodies, leafMap_update]

/-- The PML4 is the table above all pages. -/
theorem Embodies.root_of (h : Embodies ph pt) (va : Nat) :
    levels pt (3 + 1) (pageOf va / 512 ^ (3 + 1)) = some pt.pml4 := by
  rw [show pageOf va / 512 ^ (3 + 1) = 0 from Nat.div_eq_of_lt (pageOf_lt va)]
  exact h.root

/-- The two models of `map_memory`, also when there is no frame for a table. -/
theorem Embodies.mapMemory (h : Embodies ph pt) {pa : Nat} (hpa : PageAddr pa) (va : Nat)
    (writable isPresent : Bool) (origin : Origin) :
    Agree (pt.mapMemory ph va pa writable isPresent origin)
      (Paging.mapMemory ph pt.pml4 va pa (flagsOf writable false) isPresent).1 := by
  have hroot := h.root_of va
  unfold PageTable.mapMemory Paging.mapMemory
  simp only [indices]
  generalize pageOf va = page at *
  -- level by level: both models stop, or both go on with the same table
  obtain ⟨ph₁, pt₁, r, hd, hm, h₁, ht⟩ := h.ensureTable (by decide) (by decide) hroot
  simp only [hd, hm]
  cases r with
  | none => exact ⟨rfl, h₁⟩
  | some pdp =>
  obtain ⟨ph₂, pt₂, r, hd, hm, h₂, ht⟩ := h₁.ensureTable (by decide) (by decide) (ht pdp rfl)
  simp only [hd, hm]
  cases r with
  | none => exact ⟨rfl, h₂⟩
  | some pd =>
  obtain ⟨ph₃, pt₃, r, hd, hm, h₃, ht⟩ := h₂.ensureTable (by decide) (by decide) (ht pd rfl)
  simp only [hd, hm]
  cases r with
  | none => exact ⟨rfl, h₃⟩
  | some t =>
  have hword := flagsOf_word writable isPresent
  rw [hpa.frameOf, flags_or_present, withFlags_eq ((setAddress_zero hpa).symm ▸ hpa.lt) hword.2,
    setAddress_zero hpa, bits_eq (e := ⟨pa, isPresent, writable, origin⟩) hpa]
  exact ⟨rfl, h₃.setLeaf (ht t rfl) hpa⟩

/-! ## Unmapping -/

theorem leafMap_isPresent (p : Nat) : (leafMap pt p).isPresent = (pt.leaf p).any Pte.present := by
  cases hleaf : pt.leaf p with
  | none => simp [leafMap, hleaf, Mapping.isPresent]
  | some e =>
    simp only [leafMap, hleaf, Mapping.isPresent, Option.map_some, Option.any_some]
    generalize e.writable = w, e.present = q
    revert w q
    decide

/-- The two models of `is_table_empty`. -/
theorem Embodies.isTableEmpty (h : Embodies ph pt) (hl : 1 ≤ l) (hl3 : l ≤ 3)
    (ht : levels pt l k = some t) : pt.isTableEmpty l k = isTableEmpty ph t := by
  obtain rfl | ⟨l, rfl, hinner⟩ : l = 1 ∨ ∃ l', l = l' + 1 ∧ 1 ≤ l' := by
    rcases Nat.lt_or_eq_of_le hl with hlt | rfl
    · exact .inr ⟨l - 1, by omega, by omega⟩
    · exact .inl rfl
  · rw [Holds.isTableEmpty_leaf h ht, hasPresent, List.not_any_eq_all_not]
    simp only [PageTable.isTableEmpty, leafMap_isPresent, if_true]
  rw [PageTable.isTableEmpty, Paging.isTableEmpty, Bool.eq_iff_iff, List.all_eq_true,
    List.all_eq_true]
  refine forall_congr' fun i => forall_congr' fun hi => ?_
  rw [if_neg (by omega), Nat.add_sub_cancel, ← levels_of_le (by omega)]
  rcases Holds.entry_cases h ht hinner (List.mem_range.mp hi) with ⟨hflag, hnone⟩ | ⟨hflag, hsome⟩
  · simp [hflag, hnone]
  · simp [hflag, hsome]

/-- The two models of giving a table back. -/
theorem Embodies.freeTable (h : Embodies ph pt) {page parent : Nat} (hl : 1 ≤ l) (hl3 : l ≤ 3)
    (hp : levels pt (l + 1) (page / 512 ^ (l + 1)) = some parent)
    (ht : levels pt l (page / 512 ^ l) = some t) (hempty : Paging.isTableEmpty ph t) :
    ∃ ph' pt', pt.freeTable ph l (page / 512 ^ l) t parent = (ph', pt') ∧
      Paging.freeTable ph parent (page / 512 ^ l % 512) = ph' ∧ Embodies ph' pt' ∧
      ∀ l' k', l' ≠ l → levels pt' l' k' = levels pt l' k' := by
  have hi : page / 512 ^ l % 512 < 512 := Nat.mod_lt _ (by decide)
  have hfree := Holds.freeTable h hl hl3 hp hi ((key_child page l).symm ▸ ht) (by
    intro hl2
    obtain ⟨l, rfl⟩ : ∃ l', l = l' + 1 := ⟨l - 1, by omega⟩
    exact Holds.empty_inner h ht (by omega) hempty)
  have hmap : leafMap (pt.freeTable ph l (page / 512 ^ l) t parent).2 =
      if l = 1 then clearBlock (leafMap pt) (page / 512 ^ l) else leafMap pt := by
    funext p
    by_cases hl1 : l = 1
    · simp only [hl1, leafMap, PageTable.freeTable, clearBlock, true_and, if_true]
      split <;> rfl
    · simp only [hl1, leafMap, PageTable.freeTable, false_and, if_false]
  -- the entry that is cleared names the table that is given back
  have hentry := h.inner l _ parent _ hp hl hi
  rw [key_child, ht] at hentry
  have hph : Paging.freeTable ph parent (page / 512 ^ l % 512) =
      (ph.freePage t).setEntry parent (page / 512 ^ l % 512) 0 := by
    rw [Paging.freeTable, hentry, tableBits, getAddress_tableEntry (h.frame _ _ _ ht).1]
  rw [key_child, ← levels_setTable hl3, ← hmap, hph] at hfree
  refine ⟨_, _, rfl, hph, hfree, fun l' k' hne => ?_⟩
  exact (congrFun (congrFun (levels_setTable (x := none) hl3) l') k').trans
    (setTable_of_ne fun heq => hne heq.1)

/-- The two models of the end of `unmap_memory`. -/
theorem Embodies.freeEmptyTables (h : Embodies ph pt) {va pdp pd t : Nat}
    (hpath : Path (levels pt) pt.pml4 (pageOf va) pdp pd t) :
    Agree (pt.freeEmptyTables ph (pageOf va) t pd pdp)
      (Paging.freeEmptyTables ph pt.pml4 pdp pd t va) := by
  have hroot : levels pt 4 (pageOf va / 512 ^ 4) = some pt.pml4 := h.root_of va
  unfold PageTable.freeEmptyTables Paging.freeEmptyTables
  simp only [indices, Nat.pow_one]
  generalize pageOf va = page at *
  obtain ⟨-, h3, h2, h1⟩ := hpath
  rw [h.isTableEmpty (by decide) (by decide) h1]
  cases hempty : Paging.isTableEmpty ph t with
  | false => exact ⟨rfl, h⟩
  | true =>
  obtain ⟨ph₁, pt₁, hd, hm, h₁, hlevels⟩ := h.freeTable (by decide) (by decide) h2 h1 hempty
  rw [← hlevels _ _ (by decide)] at hroot h3 h2
  rw [Nat.pow_one] at hd hm
  simp only [hd, hm, if_true, Bool.not_true, Bool.false_eq_true, if_false,
    h₁.isTableEmpty (by decide) (by decide) h2]
  cases hempty : Paging.isTableEmpty ph₁ pd with
  | false => exact ⟨rfl, h₁⟩
  | true =>
  obtain ⟨ph₂, pt₂, hd, hm, h₂, hlevels⟩ := h₁.freeTable (by decide) (by decide) h3 h2 hempty
  rw [← hlevels _ _ (by decide)] at hroot h3
  simp only [hd, hm, if_true, Bool.not_true, Bool.false_eq_true, if_false,
    h₂.isTableEmpty (by decide) (by decide) h3]
  cases hempty : Paging.isTableEmpty ph₂ pdp with
  | false => exact ⟨rfl, h₂⟩
  | true =>
  obtain ⟨ph₃, pt₃, hd, hm, h₃, -⟩ := h₂.freeTable (by decide) (by decide) hroot h3 hempty
  simp only [hd, hm, if_true, Bool.not_true, Bool.false_eq_true, if_false]
  exact ⟨rfl, h₃⟩

theorem Path.table {page pdp pd : Nat} (h : Path (levels pt) pml4 page pdp pd t) :
    pt.table 3 (page / 512 ^ 3) = some pdp ∧ pt.table 2 (page / 512 ^ 2) = some pd ∧
      pt.table 1 (page / 512) = some t :=
  ⟨(levels_of_le (by decide)).symm.trans h.pdp, (levels_of_le (by decide)).symm.trans h.pd,
    (levels_of_le (by decide)).symm.trans h.pt⟩

/-- The two models of `unmap_memory`. -/
theorem Embodies.unmapMemory (h : Embodies ph pt) (va : Nat) :
    Agree (pt.unmapMemory ph va) (Paging.unmapMemory ph pt.pml4 va) := by
  unfold PageTable.unmapMemory Paging.unmapMemory
  dsimp only
  rcases Holds.tables h va with ⟨htables, hnone⟩ | ⟨pdp, pd, t, htables, hpath⟩
  · rw [htables]
    rw [levels_of_le (by decide)] at hnone
    rw [hnone]
    split
    · next hsome => cases hsome
    · exact ⟨rfl, h⟩
  obtain ⟨hpdp, hpd, ht⟩ := hpath.table
  have hpresent := getFlag_bits fun e he => (h.pages (pageOf va) e he).1
  rw [leafMap_isPresent] at hpresent
  rw [htables]
  simp only [hpdp, hpd, ht, Holds.leaf_of_path h hpath, hpresent]
  cases hleaf : (pt.leaf (pageOf va)).any Pte.present with
  | false => exact ⟨rfl, h⟩
  | true =>
    simp only [if_true, Bool.not_true, Bool.false_eq_true, if_false, (indices va).2.2.2]
    have hcleared : Embodies (ph.setEntry t (pageOf va % 512) 0)
        { pt with leaf := update pt.leaf (pageOf va) none } := by
      have hset := Holds.setLeaf h hpath.pt (x := none) nofun
      rwa [Embodies, leafMap_update]
    exact hcleared.freeEmptyTables hpath

/-! ## Lookups -/

/-- Where a walk comes to an entry of the last level, it is the word of the leaf. -/
theorem Embodies.leafEntry (h : Embodies ph pt) (va : Nat) :
    leafEntry ph pt.pml4 va = none ∧ pt.entry va = none ∨
      leafEntry ph pt.pml4 va = some (bits (leafMap pt (pageOf va))) ∧
        pt.entry va = pt.leaf (pageOf va) := by
  unfold Paging.leafEntry PageTable.entry
  rcases Holds.tables h va with ⟨htables, hnone⟩ | ⟨pdp, pd, t, htables, hpath⟩
  · rw [levels_of_le (by decide)] at hnone
    simp [htables, hnone]
  · obtain ⟨hpdp, hpd, ht⟩ := hpath.table
    simp only [htables, hpdp, hpd, ht, Holds.leaf_of_path h hpath, Option.isSome_some, and_self,
      if_true, or_true]

/-- The two models of the lookups. -/
theorem Embodies.getPhysicalAddress (h : Embodies ph pt) (va : Nat) :
    getPhysicalAddress ph pt.pml4 va = pt.getPhysicalAddress va ∧
      getPhysicalAddressIgnorePresent ph pt.pml4 va = pt.getPhysicalAddressIgnorePresent va := by
  have hflag := getFlag_bits fun e he => (h.pages (pageOf va) e he).1
  have haddr := getAddress_bits (h.pages (pageOf va))
  unfold Paging.getPhysicalAddress PageTable.getPhysicalAddress
    Paging.getPhysicalAddressIgnorePresent PageTable.getPhysicalAddressIgnorePresent
  rcases h.leafEntry va with ⟨hnone, hentry⟩ | ⟨hsome, hentry⟩
  · rw [hnone, hentry]
    exact ⟨rfl, rfl⟩
  rw [hsome, hentry]
  simp only [hflag, haddr, leafMap_isPresent]
  cases hleaf : pt.leaf (pageOf va) with
  | none => simp [leafMap, hleaf, Mapping.frame]
  | some e => cases hpresent : e.present <;> simp [leafMap, hleaf, Mapping.frame, hpresent]

/-- The tables of a new address space are held by a fresh PML4. -/
theorem Fresh.embodies (h : Fresh ph pml4) : Embodies ph ⟨pml4, fun _ _ => none, fun _ => none⟩ :=
  h.holds

end Vespera.Paging
