import Vespera.Lib.Run
import Vespera.Memory.PageEntries

/-! # Page tables as a finite map

What four levels of tables in memory stand for: a map from pages to frames and flags.
`Holds ph T M pml4` relates the two. `T level key` is the table for the page numbers
`key * 512 ^ level` up, as in `PageTable`, with the PML4 as the only table of level 4; the
entries of a table name the tables of the level below, those of level 1 hold the bits of `M`.
Every table has its own frame, which the allocator counts as used.

Two steps build everything: an entry of the last level is written (`Holds.setLeaf`), and a table
is made or given back (`Holds.ensureTable`, `Holds.freeTable`).

A leaf that is not present is an entry like any other to `map_memory`, but `unmap_memory` and
`is_table_empty` look at the present bit: unmapping such a page does nothing, and unmapping the
last present page of a table gives the table back with the entries that are not present.
`KeepsEntries` says that neither happens.
-/

namespace Vespera.Paging

open Lib Memory Function FrameAllocator

/-- What a page is mapped to: a frame and the flags of the entry. -/
abbrev Mapping := Option (Nat × Nat)

/-- The word of a mapping. -/
def bits : Mapping → Nat
  | none => 0
  | some e => e.1 ||| e.2

/-- The word of an entry that names a table. -/
def tableBits : Option Nat → Nat
  | none => 0
  | some t => tableEntry t

/-- The memory holds the tables `T`, and they hold the map `M`. -/
structure Holds (ph : Phys) (T : Nat → Nat → Option Nat) (M : Nat → Mapping) (pml4 : Nat) : Prop where
  root : T 4 0 = some pml4
  level : ∀ l k t, T l k = some t → 1 ≤ l ∧ l ≤ 4 ∧ k < 512 ^ (4 - l)
  up : ∀ l k t, T l k = some t → l < 4 → ∃ t', T (l + 1) (k / 512) = some t'
  inj : ∀ l k l' k' t, T l k = some t → T l' k' = some t → l = l' ∧ k = k'
  frame : ∀ l k t, T l k = some t → PageAddr t ∧ t ≠ 0 ∧ ph.alloc.used (t / pageSize) = true
  inner : ∀ l k t i, T (l + 1) k = some t → 1 ≤ l → i < 512 →
    entry ph t i = tableBits (T l (k * 512 + i))
  leaf : ∀ k t i, T 1 k = some t → i < 512 → entry ph t i = bits (M (k * 512 + i))
  missing : ∀ p, T 1 (p / 512) = none → bits (M p) = 0
  pages : ∀ p e, M p = some e → PageAddr e.1 ∧ FlagWord e.2
  wf : ph.alloc.WF
  bound : ph.alloc.maxIndex ≤ 2 ^ 40

theorem PageAddr.frameOf {t : Nat} (h : PageAddr t) : frameOf t = t := by
  have halign := h.1
  simp only [Memory.frameOf, pageSize] at halign ⊢
  omega

theorem tableEntry_ne_zero {t : Nat} (h : PageAddr t) : tableEntry t ≠ 0 := by
  intro hzero
  have hflag := getFlag_tableEntry h
  rw [hzero] at hflag
  cases hflag

section Tables

variable {ph ph' : Phys} {T : Nat → Nat → Option Nat} {M : Nat → Mapping} {pml4 l k t : Nat}

theorem Holds.child_bound (h : Holds ph T M pml4) {i : Nat} (ht : T (l + 1) k = some t)
    (hl : 1 ≤ l) (hi : i < 512) : k * 512 + i < 512 ^ (4 - l) := by
  obtain ⟨-, hle, hk⟩ := h.level _ _ _ ht
  have hpow : 512 ^ (4 - l) = 512 ^ (4 - (l + 1)) * 512 := by
    rw [← Nat.pow_succ]
    congr 1
    omega
  rw [hpow]
  omega

theorem Holds.frameOf (h : Holds ph T M pml4) (ht : T l k = some t) : Memory.frameOf t = t :=
  (h.frame l k t ht).1.frameOf

/-! ## Writing a leaf -/

/-- An entry of the last level is written. -/
theorem Holds.setLeaf (h : Holds ph T M pml4) {p : Nat} (ht : T 1 (p / 512) = some t) {x : Mapping}
    (hx : ∀ e, x = some e → PageAddr e.1 ∧ FlagWord e.2) :
    Holds (ph.setEntry t (p % 512) (bits x)) T (update M p x) pml4 := by
  have hlt : bits x < 2 ^ 64 := by
    cases x with
    | none => exact Nat.two_pow_pos 64
    | some e => exact Nat.or_lt_two_pow (hx e rfl).1.lt (hx e rfl).2.2
  have hi : p % 512 < 512 := Nat.mod_lt p (by decide)
  refine ⟨h.root, h.level, h.up, h.inj, h.frame, ?_, ?_, ?_, ?_, h.wf, h.bound⟩
  · intro l k u j hu hl hj
    have hne : u ≠ t := by
      rintro rfl
      have := (h.inj _ _ _ _ _ hu ht).1
      omega
    rw [entry_setEntry_of_ne (h.frameOf ht) (h.frameOf hu) hi hj (.inl hne)]
    exact h.inner l k u j hu hl hj
  · intro k u j hu hj
    by_cases hkj : k * 512 + j = p
    · have hk : k = p / 512 := by omega
      have hj' : j = p % 512 := by omega
      subst hk hj'
      rw [ht] at hu
      obtain rfl := Option.some.inj hu
      rw [entry_setEntry_self hlt, hkj, update_self]
    rw [update_of_ne hkj, entry_setEntry_of_ne (h.frameOf ht) (h.frameOf hu) hi hj]
    · exact h.leaf k u j hu hj
    by_contra hboth
    push Not at hboth
    obtain ⟨rfl, rfl⟩ := hboth
    have hk := (h.inj _ _ _ _ _ hu ht).2
    omega
  · intro q hq
    have hne : q ≠ p := by
      rintro rfl
      rw [ht] at hq
      cases hq
    rw [update_of_ne hne]
    exact h.missing q hq
  intro q e hq
  by_cases hqp : q = p
  · subst hqp
    rw [update_self] at hq
    exact hx e hq
  · rw [update_of_ne hqp] at hq
    exact h.pages q e hq

/-! ## Making a table -/

/-- The tables with one more, or one less. -/
def setTable (T : Nat → Nat → Option Nat) (l k : Nat) (t : Option Nat) : Nat → Nat → Option Nat :=
  update T l (update (T l) k t)

theorem setTable_self (T : Nat → Nat → Option Nat) (l k : Nat) (t : Option Nat) :
    setTable T l k t l k = t := by
  simp [setTable]

theorem setTable_of_ne {l' k' : Nat} {t : Option Nat} (h : ¬ (l' = l ∧ k' = k)) :
    setTable T l k t l' k' = T l' k' := by
  unfold setTable
  by_cases hl : l' = l
  · subst hl
    rw [update_self, update_of_ne (fun hk => h ⟨rfl, hk⟩)]
  · rw [update_of_ne hl]

theorem setTable_eq_self (h : T l k = some t) : setTable T l k (some t) = T := by
  rw [setTable, ← h, update_eq_self, update_eq_self]

/-- A table of a state with one table set is that one or one of the others. -/
theorem setTable_cases {l' k' u : Nat} {t : Option Nat} (h : setTable T l k t l' k' = some u) :
    (l' = l ∧ k' = k ∧ t = some u) ∨ (¬ (l' = l ∧ k' = k) ∧ T l' k' = some u) := by
  by_cases hlk : l' = l ∧ k' = k
  · obtain ⟨rfl, rfl⟩ := hlk
    rw [setTable_self] at h
    exact .inl ⟨rfl, rfl, h⟩
  · rw [setTable_of_ne hlk] at h
    exact .inr ⟨hlk, h⟩

/-- Below a table that is missing there is none. -/
theorem Holds.none_below (h : Holds ph T M pml4) {j : Nat} (hl : l < 4)
    (hnone : T (l + 1) k = none) (hj : j < 512) : T l (k * 512 + j) = none := by
  by_contra hsome
  obtain ⟨u, hu⟩ := Option.ne_none_iff_exists'.mp hsome
  obtain ⟨t', ht'⟩ := h.up _ _ _ hu hl
  rw [show (k * 512 + j) / 512 = k by omega, hnone] at ht'
  cases ht'

/-- An entry of a table of tables is written, and names an empty table or none. There are no tables
below, and the pages below have no entries after it. -/
theorem Holds.retable (h : Holds ph T M pml4) {M' : Nat → Mapping} {x : Option Nat} {i parent : Nat}
    (hl : 1 ≤ l) (hl3 : l ≤ 3) (hp : T (l + 1) k = some parent) (hi : i < 512)
    (hbelow : ∀ l' k', l' + 1 = l → k' / 512 = k * 512 + i → T l' k' = none)
    (hnew : ∀ t, x = some t → PageAddr t ∧ t ≠ 0 ∧ (∀ l' k' u, T l' k' = some u → u ≠ t) ∧
      ph'.alloc.used (t / pageSize) = true ∧ ∀ j, j < 512 → entry ph' t j = 0)
    (hset : entry ph' parent i = tableBits x)
    (hold : ∀ l' k' u j, T l' k' = some u → j < 512 → u ≠ parent ∨ j ≠ i →
      entry ph' u j = entry ph u j)
    (hused : ∀ l' k' u, T l' k' = some u → ¬ (l' = l ∧ k' = k * 512 + i) →
      ph'.alloc.used (u / pageSize) = true)
    (hpages : ∀ p e, M' p = some e → PageAddr e.1 ∧ FlagWord e.2)
    (hin : ∀ p, l = 1 → p / 512 = k * 512 + i → bits (M' p) = 0)
    (hout : ∀ p, ¬ (l = 1 ∧ p / 512 = k * 512 + i) → M' p = M p) (hwf : ph'.alloc.WF)
    (hbound : ph'.alloc.maxIndex ≤ 2 ^ 40) : Holds ph' (setTable T l (k * 512 + i) x) M' pml4 := by
  refine ⟨?_, ?_, ?_, ?_, ?_, ?_, ?_, ?_, hpages, hwf, hbound⟩
  · rw [setTable_of_ne (by omega)]
    exact h.root
  · intro l' k' u hu
    rcases setTable_cases hu with ⟨rfl, rfl, -⟩ | ⟨-, hu⟩
    · exact ⟨hl, by omega, h.child_bound hp hl hi⟩
    · exact h.level _ _ _ hu
  · intro l' k' u hu hl'
    rcases setTable_cases hu with ⟨rfl, rfl, -⟩ | ⟨-, hu⟩
    · refine ⟨parent, ?_⟩
      rw [setTable_of_ne (by omega), show (k * 512 + i) / 512 = k by omega]
      exact hp
    rw [setTable_of_ne fun hlk => by rw [hbelow l' k' hlk.1 hlk.2] at hu; cases hu]
    exact h.up _ _ _ hu hl'
  · intro l1 k1 l2 k2 u h1 h2
    rcases setTable_cases h1 with ⟨rfl, rfl, hu⟩ | ⟨-, h1⟩
    · rcases setTable_cases h2 with ⟨rfl, rfl, -⟩ | ⟨-, h2⟩
      · exact ⟨rfl, rfl⟩
      · exact absurd rfl ((hnew u hu).2.2.1 _ _ _ h2)
    · rcases setTable_cases h2 with ⟨-, -, hu⟩ | ⟨-, h2⟩
      · exact absurd rfl ((hnew u hu).2.2.1 _ _ _ h1)
      · exact h.inj _ _ _ _ _ h1 h2
  · intro l' k' u hu
    rcases setTable_cases hu with ⟨-, -, hu⟩ | ⟨hlk, hu⟩
    · obtain ⟨haddr, hne, -, hu, -⟩ := hnew u hu
      exact ⟨haddr, hne, hu⟩
    · obtain ⟨haddr, hne, -⟩ := h.frame _ _ _ hu
      exact ⟨haddr, hne, hused _ _ _ hu hlk⟩
  · intro l' k' u j hu hl' hj
    rcases setTable_cases hu with ⟨rfl, rfl, hx⟩ | ⟨-, hu'⟩
    · rw [(hnew u hx).2.2.2.2 j hj, setTable_of_ne (by omega), hbelow _ _ rfl (by omega)]
      rfl
    -- the entry that was written, or any other
    by_cases hpi : u = parent ∧ j = i
    · obtain ⟨rfl, rfl⟩ := hpi
      obtain ⟨hll, rfl⟩ := h.inj _ _ _ _ _ hu' hp
      obtain rfl : l' = l := by omega
      rw [setTable_self, hset]
    rw [hold _ _ _ j hu' hj (by omega), h.inner l' k' u j hu' hl' hj, setTable_of_ne]
    rintro ⟨rfl, hk'⟩
    obtain ⟨rfl, rfl⟩ : k' = k ∧ j = i := by omega
    rw [hu'] at hp
    exact hpi ⟨Option.some.inj hp, rfl⟩
  · intro k' u j hu hj
    rcases setTable_cases hu with ⟨rfl, rfl, hx⟩ | ⟨hlk, hu⟩
    · rw [(hnew u hx).2.2.2.2 j hj, hin _ rfl (by omega)]
    have hne : u ≠ parent := by
      rintro rfl
      have hlevel := (h.inj _ _ _ _ _ hu hp).1
      omega
    rw [hold _ _ _ j hu hj (.inl hne), hout _ (by omega)]
    exact h.leaf _ _ _ hu hj
  intro p hnone
  by_cases hlk : l = 1 ∧ p / 512 = k * 512 + i
  · exact hin p hlk.1 hlk.2
  · rw [hout p hlk]
    rw [setTable_of_ne (by omega)] at hnone
    exact h.missing p hnone

/-- `ensure_table` finds the table of a page, or makes it. -/
theorem Holds.ensureTable (h : Holds ph T M pml4) {parent i : Nat} (hl : 1 ≤ l) (hl3 : l ≤ 3)
    (hp : T (l + 1) k = some parent) (hi : i < 512) (hr : ensureTable ph parent i = (ph', some t)) :
    Holds ph' (setTable T l (k * 512 + i) (some t)) M pml4 := by
  have hentry := h.inner l k parent i hp hl hi
  unfold Paging.ensureTable at hr
  rw [hentry] at hr
  cases htable : T l (k * 512 + i) with
  | some u =>
    -- the table is there
    have hu := (h.frame _ _ _ htable).1
    simp only [htable, tableBits, getFlag_tableEntry hu, getAddress_tableEntry hu, Bool.not_true,
      Bool.false_eq_true, if_false, Prod.mk.injEq, Option.some.injEq] at hr
    obtain ⟨rfl, rfl⟩ := hr
    rw [setTable_eq_self htable]
    exact h
  | none =>
    have hzero : getFlag (tableBits none) present = false := rfl
    simp only [htable, hzero, Bool.not_false, if_true] at hr
    split at hr
    · cases hr
    next hnull =>
    obtain ⟨rfl, rfl⟩ := hr
    -- the new frame was free, so it is none of the tables
    obtain ⟨f, hf, hgranted⟩ := requestPage_ok hnull
    have hrf : ph.requestPage.2 = f * pageSize := hf
    have hdiv : ph.requestPage.2 / pageSize = f := by
      rw [hrf, Nat.mul_div_cancel _ (by decide)]
    obtain ⟨hfree, hflt⟩ := hgranted.free f (Nat.le_refl f) (by omega)
    have haddr : PageAddr ph.requestPage.2 := by
      have hbound := h.bound
      rw [hrf]
      refine ⟨Nat.mul_mod_left f pageSize, ?_⟩
      simp only [pageSize]
      omega
    have hother : ∀ l' k' u, T l' k' = some u → u ≠ ph.requestPage.2 := by
      rintro l' k' u hu rfl
      have hused := (h.frame _ _ _ hu).2.2
      rw [hdiv, hfree] at hused
      cases hused
    have hkeep : ∀ f', ph.alloc.used f' ∨ f' = f → ph.alloc.requestPage.1.used f' = true := by
      intro f' hf'
      rw [hgranted.used]
      rcases hf' with hf' | rfl
      · rw [hf']
        rfl
      · simp
    refine h.retable (x := some ph.requestPage.2) hl hl3 hp hi ?_ ?_ ?_ ?_ ?_ h.pages ?_
      (fun _ _ => rfl) (requestPage_wf h.wf) ?_
    · rintro l' k' rfl hk'
      rw [show k' = (k * 512 + i) * 512 + k' % 512 by omega]
      exact h.none_below (by omega) htable (Nat.mod_lt _ (by decide))
    · rintro t ⟨⟩
      refine ⟨haddr, hnull, hother, hkeep _ (.inr hdiv), fun j hj => ?_⟩
      rw [entry_setEntry_of_ne (h.frameOf hp) haddr.frameOf hi hj (.inl (hother _ _ _ hp).symm)]
      exact entry_zero_self hj
    · exact entry_setEntry_self (tableEntry_lt haddr)
    · intro l' k' u j hu hj hne
      rw [entry_setEntry_of_ne (h.frameOf hp) (h.frameOf hu) hi hj hne,
        entry_zero_of_ne haddr.frameOf (h.frameOf hu) hj (hother _ _ _ hu)]
      rfl
    · intro l' k' u hu _
      exact hkeep _ (.inl (h.frame _ _ _ hu).2.2)
    · rintro p rfl hp
      rw [h.missing p (hp ▸ htable)]
    · show ph.alloc.requestPage.1.maxIndex ≤ 2 ^ 40
      rw [requestPage_maxIndex]
      exact h.bound

/-! ## Giving a table back -/

/-- The map without the pages of a last table. -/
def clearBlock (M : Nat → Mapping) (key : Nat) : Nat → Mapping :=
  fun q => if q / 512 = key then none else M q

/-- A table is given back, and the entry that names it cleared. A table of tables must be empty;
with a last table go the pages it has entries for. -/
theorem Holds.freeTable (h : Holds ph T M pml4) {i parent : Nat} (hl : 1 ≤ l) (hl3 : l ≤ 3)
    (hp : T (l + 1) k = some parent) (hi : i < 512) (ht : T l (k * 512 + i) = some t)
    (hempty : 2 ≤ l → ∀ j, j < 512 → entry ph t j = 0) :
    Holds (freeTable ph parent i) (setTable T l (k * 512 + i) none)
      (if l = 1 then clearBlock M (k * 512 + i) else M) pml4 := by
  obtain ⟨htaddr, htne, -⟩ := h.frame _ _ _ ht
  have hfreed : getAddress (entry ph parent i) = t := by
    rw [h.inner l k parent i hp hl hi, ht]
    exact getAddress_tableEntry htaddr
  refine h.retable hl hl3 hp hi ?_ nofun (entry_setEntry_self (by decide)) ?_ ?_ ?_ ?_ ?_ ?_ ?_
  · -- no table names one below it
    rintro l' k' rfl hk'
    by_contra hsome
    obtain ⟨u, hu⟩ := Option.ne_none_iff_exists'.mp hsome
    have hl' := (h.level _ _ _ hu).1
    have hentry := h.inner l' (k * 512 + i) t (k' % 512) ht hl' (Nat.mod_lt _ (by decide))
    rw [hempty (by omega) _ (Nat.mod_lt _ (by decide)),
      show (k * 512 + i) * 512 + k' % 512 = k' by omega, hu] at hentry
    exact tableEntry_ne_zero (h.frame _ _ _ hu).1 hentry.symm
  · intro l' k' u j hu hj hne
    exact entry_setEntry_of_ne (h.frameOf hp) (h.frameOf hu) hi hj hne
  · intro l' k' u hu hlk
    obtain ⟨hpage, -, hused⟩ := h.frame _ _ _ hu
    show (ph.alloc.freePage (getAddress (entry ph parent i))).used (u / pageSize) = true
    rw [hfreed, freePage_used, hused, decide_eq_false]
    · rfl
    -- only the table itself is in the frame that is freed
    intro heq
    have hu' := hpage.frameOf
    rw [Memory.frameOf, heq] at hu'
    obtain rfl : t = u := htaddr.frameOf.symm.trans hu'
    exact hlk (h.inj _ _ _ _ _ hu ht)
  · intro p e he
    split at he
    · unfold clearBlock at he
      split at he
      · cases he
      · exact h.pages p e he
    · exact h.pages p e he
  · intro p hl1 hp
    rw [if_pos hl1, clearBlock, if_pos hp]
    rfl
  · intro p hlk
    split
    · next hl1 => rw [clearBlock, if_neg fun hp => hlk ⟨hl1, hp⟩]
    · rfl
  · show (ph.alloc.freePage (getAddress (entry ph parent i))).WF
    rw [hfreed]
    refine freePage_wf h.wf ?_
    have halign := htaddr.1
    simp only [pageSize] at halign ⊢
    omega
  · show (ph.alloc.freePage _).maxIndex ≤ 2 ^ 40
    rw [freePage_maxIndex]
    exact h.bound

/-! ## Walks -/

/-- The tables on the way to a page. -/
structure Path (T : Nat → Nat → Option Nat) (pml4 p pdp pd pt : Nat) : Prop where
  pml4 : T (3 + 1) 0 = some pml4
  pdp : T (2 + 1) (p / 512 ^ 3) = some pdp
  pd : T (1 + 1) (p / 512 ^ 2) = some pd
  pt : T 1 (p / 512) = some pt

/-- The indices of an address in the tables of the levels, from its page number. -/
theorem indices (va : Nat) : index va 3 = pageOf va / 512 ^ 3 % 512 ∧
    index va 2 = pageOf va / 512 ^ 2 % 512 ∧ index va 1 = pageOf va / 512 ^ 1 % 512 ∧
    index va 0 = pageOf va % 512 := by
  unfold index pageOf
  omega

theorem pageOf_lt (va : Nat) : pageOf va < 2 ^ 36 := Nat.mod_lt _ (by decide)

/-- The keys of the tables on the way to a page, each from the one above it. -/
theorem key_pdp {p : Nat} (h : p < 2 ^ 36) : 0 * 512 + p / 512 ^ 3 % 512 = p / 512 ^ 3 := by omega

theorem key_pd (p : Nat) : p / 512 ^ 3 * 512 + p / 512 ^ 2 % 512 = p / 512 ^ 2 := by omega

theorem key_pt (p : Nat) : p / 512 ^ 2 * 512 + p / 512 ^ 1 % 512 = p / 512 := by omega

/-- What a present entry of a table says. -/
theorem Holds.entry_cases (h : Holds ph T M pml4) {i : Nat} (ht : T (l + 1) k = some t)
    (hl : 1 ≤ l) (hi : i < 512) :
    (getFlag (entry ph t i) present = false ∧ T l (k * 512 + i) = none) ∨
      (getFlag (entry ph t i) present ∧ T l (k * 512 + i) = some (getAddress (entry ph t i))) := by
  rw [h.inner l k t i ht hl hi]
  cases hc : T l (k * 512 + i) with
  | none => exact .inl ⟨rfl, rfl⟩
  | some u =>
    have hu := (h.frame _ _ _ hc).1
    exact .inr ⟨getFlag_tableEntry hu, by rw [tableBits, getAddress_tableEntry hu]⟩

/-- The tables a walk finds. -/
theorem Holds.tables (h : Holds ph T M pml4) (va : Nat) :
    (tables ph pml4 va = none ∧ T 1 (pageOf va / 512) = none) ∨
      ∃ pdp pd pt, tables ph pml4 va = some (pdp, pd, pt) ∧ Path T pml4 (pageOf va) pdp pd pt := by
  have hlt := pageOf_lt va
  unfold Paging.tables
  simp only [indices]
  generalize pageOf va = p at *
  have hmod : ∀ x, x % 512 < 512 := fun x => Nat.mod_lt x (by decide)
  -- level by level: a table that is missing has none below it
  rcases h.entry_cases (l := 3) h.root (by decide) (hmod (p / 512 ^ 3)) with ⟨hf, hn⟩ | ⟨hf, h3⟩
  · rw [hf]
    refine .inl ⟨rfl, ?_⟩
    have h2 := h.none_below (l := 2) (by decide) hn (hmod (p / 512 ^ 2))
    have h1 := h.none_below (l := 1) (by decide) h2 (hmod (p / 512))
    rwa [show ((0 * 512 + p / 512 ^ 3 % 512) * 512 + p / 512 ^ 2 % 512) * 512 + p / 512 % 512 =
      p / 512 by omega] at h1
  rw [key_pdp hlt] at h3
  rw [hf]
  rcases h.entry_cases (l := 2) h3 (by decide) (hmod (p / 512 ^ 2)) with ⟨hf, hn⟩ | ⟨hf, h2⟩
  · rw [hf]
    refine .inl ⟨rfl, ?_⟩
    have h1 := h.none_below (l := 1) (by decide) hn (hmod (p / 512))
    rwa [show (p / 512 ^ 3 * 512 + p / 512 ^ 2 % 512) * 512 + p / 512 % 512 = p / 512 by omega] at h1
  rw [key_pd p] at h2
  rw [hf]
  rcases h.entry_cases (l := 1) h2 (by decide) (hmod (p / 512 ^ 1)) with ⟨hf, hn⟩ | ⟨hf, h1⟩
  · rw [hf]
    refine .inl ⟨rfl, ?_⟩
    rwa [key_pt p] at hn
  · rw [key_pt p] at h1
    rw [hf]
    exact .inr ⟨_, _, _, rfl, h.root, h3, h2, h1⟩

/-- The entry of a page in its table. -/
theorem Holds.leaf_of_path (h : Holds ph T M pml4) {va pdp pd pt : Nat}
    (hpath : Path T pml4 (pageOf va) pdp pd pt) : entry ph pt (index va 0) = bits
    (M (pageOf va)) := by
  have hleaf := h.leaf _ _ (pageOf va % 512) hpath.pt (Nat.mod_lt _ (by decide))
  rw [show pageOf va / 512 * 512 + pageOf va % 512 = pageOf va by omega] at hleaf
  rw [(indices va).2.2.2]
  exact hleaf

/-- The entry of a page, as the walk finds it: none if a table is missing. -/
theorem Holds.leafEntry (h : Holds ph T M pml4) (va : Nat) :
    (leafEntry ph pml4 va = none ∧ bits (M (pageOf va)) = 0) ∨
      leafEntry ph pml4 va = some (bits (M (pageOf va))) := by
  unfold Paging.leafEntry
  rcases h.tables va with ⟨htables, hnone⟩ | ⟨pdp, pd, pt, htables, hpath⟩
  · rw [htables]
    exact .inl ⟨rfl, h.missing _ hnone⟩
  · rw [htables]
    exact .inr (congrArg some (h.leaf_of_path hpath))

/-! ## The two operations -/

/-- `map_memory`, when it gets through. -/
theorem Holds.mapMemory (h : Holds ph T M pml4) {va pa flags : Nat} {isPresent : Bool}
    (hr : mapMemory ph pml4 va pa flags isPresent = (ph', true)) (hpa : PageAddr pa)
    (hflags : FlagWord flags) : ∃ T', Holds ph' T' (update M (pageOf va)
      (some (pa, if isPresent then flags ||| 2 ^ present else flags))) pml4 := by
  have hlt := pageOf_lt va
  have hmod : ∀ x, x % 512 < 512 := fun x => Nat.mod_lt x (by decide)
  unfold Paging.mapMemory at hr
  simp only [indices] at hr
  generalize pageOf va = p at *
  split at hr
  · cases hr
  next ph1 pdp h₁ =>
  have hT1 := h.ensureTable (by decide) (by decide) h.root (hmod _) h₁
  rw [key_pdp hlt] at hT1
  split at hr
  · cases hr
  next ph2 pd h₂ =>
  have hT2 := hT1.ensureTable (by decide) (by decide) (setTable_self _ _ _ _) (hmod _) h₂
  rw [key_pd p] at hT2
  split at hr
  · cases hr
  next ph3 pt h₃ =>
  have hT3 := hT2.ensureTable (by decide) (by decide) (setTable_self _ _ _ _) (hmod _) h₃
  rw [key_pt p] at hT3
  obtain ⟨rfl, -⟩ := Prod.mk.inj hr
  have hword : FlagWord (if isPresent then flags ||| 2 ^ present else flags) := by
    split
    · refine ⟨?_, Nat.or_lt_two_pow hflags.2 (by decide)⟩
      rw [Nat.and_or_distrib_right, hflags.1]
      rfl
    · exact hflags
  have hleaf := hT3.setLeaf (setTable_self _ _ _ _) (x := some (pa, if isPresent then flags ||| 2 ^ present else flags))
    (by
      intro e he
      obtain rfl := Option.some.inj he
      exact ⟨hpa, hword⟩)
  rw [withFlags_eq ((setAddress_zero hpa).symm ▸ hpa.lt) hword.2, setAddress_zero hpa]
  exact ⟨_, hleaf⟩

/-- A mapping that is present. -/
def Mapping.isPresent (x : Mapping) : Bool := x.any fun e => e.2.testBit present

theorem getFlag_bits {x : Mapping} (hx : ∀ e, x = some e → PageAddr e.1) :
    getFlag (bits x) present = x.isPresent := by
  cases x with
  | none => rfl
  | some e => exact getFlag_or (hx e rfl) (by decide)

/-- A table of tables that is judged empty has no entry. -/
theorem Holds.empty_inner (h : Holds ph T M pml4) (ht : T (l + 1) k = some t)
    (hl : 1 ≤ l) (hempty : isTableEmpty ph t) : ∀ j, j < 512 → entry ph t j = 0 := by
  intro j hj
  have hnot := List.all_eq_true.mp hempty j (List.mem_range.mpr hj)
  rcases h.entry_cases ht hl hj with ⟨-, hnone⟩ | ⟨hflag, -⟩
  · rw [h.inner l k t j ht hl hj, hnone]
    rfl
  · rw [hflag] at hnot
    cases hnot

/-- One of the pages of a last table is present. -/
def hasPresent (M : Nat → Mapping) (key : Nat) : Bool :=
  (List.range 512).any fun j => (M (key * 512 + j)).isPresent

theorem hasPresent_iff {key : Nat} : hasPresent M key ↔ ∃ q, q / 512 = key ∧ (M q).isPresent := by
  rw [hasPresent, List.any_eq_true]
  constructor
  · rintro ⟨j, hj, hp⟩
    have hj : j < 512 := List.mem_range.mp hj
    exact ⟨key * 512 + j, by omega, hp⟩
  rintro ⟨q, hq, hp⟩
  refine ⟨q % 512, List.mem_range.mpr (Nat.mod_lt q (by decide)), ?_⟩
  rw [show key * 512 + q % 512 = q by omega]
  exact hp

/-- A last table is judged empty when none of its pages is present. -/
theorem Holds.isTableEmpty_leaf (h : Holds ph T M pml4) (ht : T 1 k = some t) :
    isTableEmpty ph t = !hasPresent M k := by
  rw [isTableEmpty, hasPresent, List.not_any_eq_all_not, Bool.eq_iff_iff, List.all_eq_true,
    List.all_eq_true]
  refine forall_congr' fun j => forall_congr' fun hj => ?_
  rw [h.leaf k t j ht (List.mem_range.mp hj), getFlag_bits fun e he => (h.pages _ e he).1]

/-- The map after the empty tables are given back: without a present page in it, the last table of
a page goes, and the pages that are not present with it. -/
def pruned (M : Nat → Mapping) (p : Nat) : Nat → Mapping :=
  if hasPresent M (p / 512) then M else clearBlock M (p / 512)

theorem Holds.freeEmptyTables (h : Holds ph T M pml4) {va pdp pd pt : Nat}
    (hpath : Path T pml4 (pageOf va) pdp pd pt) :
    ∃ T', Holds (freeEmptyTables ph pml4 pdp pd pt va) T' (pruned M (pageOf va)) pml4 := by
  have hlt := pageOf_lt va
  have hmod : ∀ x, x % 512 < 512 := fun x => Nat.mod_lt x (by decide)
  unfold Paging.freeEmptyTables
  simp only [indices]
  generalize pageOf va = p at *
  have hkey1 := key_pt p
  have hkey2 := key_pd p
  have hkey3 := key_pdp hlt
  obtain ⟨h4, h3, h2, h1⟩ := hpath
  -- upwards from the last table, as long as one is empty
  cases hempty : isTableEmpty ph pt with
  | false =>
    rw [h.isTableEmpty_leaf h1, Bool.not_eq_false'] at hempty
    simp only [pruned, hempty, Bool.not_false, if_true]
    exact ⟨T, h⟩
  | true =>
  have hnone : hasPresent M (p / 512) = false := by
    rw [h.isTableEmpty_leaf h1, Bool.not_eq_true'] at hempty
    exact hempty
  simp only [pruned, hnone, Bool.not_true, Bool.false_eq_true, if_false]
  have hT1 := h.freeTable (by decide) (by decide) h2 (hmod (p / 512 ^ 1)) (by rw [hkey1]; exact h1)
    (fun h21 => absurd h21 (by decide))
  rw [hkey1, if_pos rfl] at hT1
  have h2' : setTable T 1 (p / 512) none (1 + 1) (p / 512 ^ 2) = some pd := by
    rw [setTable_of_ne (by omega)]
    exact h2
  have h3' : setTable T 1 (p / 512) none (2 + 1) (p / 512 ^ 3) = some pdp := by
    rw [setTable_of_ne (by omega)]
    exact h3
  cases hempty2 : isTableEmpty (Paging.freeTable ph pd (p / 512 ^ 1 % 512)) pd with
  | false =>
    simp only [Bool.not_false, if_true]
    exact ⟨_, hT1⟩
  | true =>
  simp only [Bool.not_true, Bool.false_eq_true, if_false]
  have hT2 := hT1.freeTable (by decide) (by decide) h3' (hmod (p / 512 ^ 2))
    (by rw [hkey2]; exact h2') (fun _ => hT1.empty_inner h2' (by decide) hempty2)
  rw [hkey2, if_neg (show ¬ 2 = 1 by decide)] at hT2
  have h3'' : setTable (setTable T 1 (p / 512) none) 2 (p / 512 ^ 2) none (2 + 1) (p / 512 ^ 3) =
      some pdp := by
    rw [setTable_of_ne (by omega)]
    exact h3'
  cases hempty3 : isTableEmpty
      (Paging.freeTable (Paging.freeTable ph pd (p / 512 ^ 1 % 512)) pdp (p / 512 ^ 2 % 512)) pdp with
  | false =>
    simp only [Bool.not_false, if_true]
    exact ⟨_, hT2⟩
  | true =>
  simp only [Bool.not_true, Bool.false_eq_true, if_false]
  have hT3 := hT2.freeTable (by decide) (by decide) hT2.root (hmod (p / 512 ^ 3))
    (by rw [hkey3]; exact h3'') (fun _ => hT2.empty_inner h3'' (by decide) hempty3)
  exact ⟨_, hT3⟩

/-- What `unmap_memory` does to the map: nothing to a page that is not present; a present page goes,
and with the last one of its table the pages that are not present. -/
def unmapped (M : Nat → Mapping) (p : Nat) : Nat → Mapping :=
  if (M p).isPresent then pruned (update M p none) p else M

theorem Holds.unmapMemory (h : Holds ph T M pml4) (va : Nat) :
    ∃ T', Holds (unmapMemory ph pml4 va) T' (unmapped M (pageOf va)) pml4 := by
  have hflag : getFlag (bits (M (pageOf va))) present = (M (pageOf va)).isPresent :=
    getFlag_bits fun e he => (h.pages _ e he).1
  unfold Paging.unmapMemory unmapped
  rcases h.tables va with ⟨htables, hmiss⟩ | ⟨pdp, pd, pt, htables, hpath⟩
  · rw [htables, ← hflag, h.missing _ hmiss]
    exact ⟨T, h⟩
  rw [htables]
  dsimp only
  rw [h.leaf_of_path hpath, hflag]
  cases hp : (M (pageOf va)).isPresent with
  | false =>
    simp only [Bool.not_false, Bool.false_eq_true, if_true, if_false]
    exact ⟨T, h⟩
  | true =>
    simp only [Bool.not_true, Bool.false_eq_true, if_true, if_false]
    have hcleared := h.setLeaf hpath.pt (x := none) (by nofun)
    rw [(indices va).2.2.2]
    exact hcleared.freeEmptyTables hpath

/-- A page that is not mapped, or is present in a table with another present page or no other page
at all, is removed and nothing else. -/
theorem unmapped_eq {p : Nat} (hpresent : ∀ e, M p = some e → e.2.testBit present)
    (hpages : M p ≠ none → (∃ q, q / 512 = p / 512 ∧ q ≠ p ∧ (M q).isPresent) ∨
      ∀ q, q / 512 = p / 512 → q ≠ p → M q = none) : unmapped M p = update M p none := by
  unfold unmapped
  cases hM : M p with
  | none =>
    rw [← hM, update_eq_self, hM]
    exact if_neg (by decide)
  | some e =>
    have hisp : Mapping.isPresent (some e) := hpresent e hM
    rw [if_pos hisp, pruned]
    cases hother : hasPresent (update M p none) (p / 512) with
    | true => rw [if_pos rfl]
    | false =>
      rw [if_neg (by decide)]
      rcases hpages (by rw [hM]; nofun) with ⟨q, hq, hne, hqp⟩ | hnone
      · -- the other present page is still there
        have hhas : hasPresent (update M p none) (p / 512) := by
          refine hasPresent_iff.mpr ⟨q, hq, ?_⟩
          rw [update_of_ne hne]
          exact hqp
        rw [hhas] at hother
        cases hother
      funext q
      unfold clearBlock
      split
      · next hq =>
        by_cases hqp : q = p
        · rw [hqp, update_self]
        · rw [update_of_ne hqp, hnone q hq hqp]
      · rfl

end Tables

/-! ## Page addresses -/

/-- A page-aligned address that the processor accepts: bits 47 to 63 are equal. -/
def Canonical (va : Nat) : Prop :=
  va % pageSize = 0 ∧ (va < 2 ^ 47 ∨ (2 ^ 64 - 2 ^ 47 ≤ va ∧ va < 2 ^ 64))

instance (va : Nat) : Decidable (Canonical va) := inferInstanceAs (Decidable (_ ∧ _))

/-- The address of a page number. -/
def canonOf (p : Nat) : Nat := if p < 2 ^ 35 then p * 4096 else p * 4096 + (2 ^ 64 - 2 ^ 48)

/-- The `j`-th page that shares its last table with an address. -/
def blockPage (va j : Nat) : Nat := va / 2 ^ 21 * 2 ^ 21 + j * 4096

variable {va : Nat}

theorem canonOf_pageOf (h : Canonical va) : canonOf (pageOf va) = va := by
  obtain ⟨halign, hhalf⟩ := h
  have hpage : pageOf va = va / 4096 % 2 ^ 36 := rfl
  simp only [canonOf, pageSize] at halign ⊢
  split <;> omega

theorem canonOf_inj {p q : Nat} (h : canonOf p = canonOf q) : p = q := by
  unfold canonOf at h
  split at h <;> split at h <;> omega

theorem canonOf_eq_iff {p : Nat} (h : Canonical va) : canonOf p = va ↔ p = pageOf va := by
  constructor
  · intro heq
    exact canonOf_inj (heq.trans (canonOf_pageOf h).symm)
  · rintro rfl
    exact canonOf_pageOf h

/-- The pages of a table, by their addresses. -/
theorem canonOf_block {q : Nat} (h : Canonical va) (hq : q / 512 = pageOf va / 512) :
    canonOf q = blockPage va (q % 512) := by
  obtain ⟨halign, hhalf⟩ := h
  simp only [canonOf, pageOf, pageSize, blockPage] at halign hq ⊢
  split <;> omega

/-- Every page of a table is the page of some page number. -/
theorem exists_canonOf_block {j : Nat} (h : Canonical va) (hj : j < 512) :
    ∃ q, q / 512 = pageOf va / 512 ∧ canonOf q = blockPage va j := by
  refine ⟨pageOf va / 512 * 512 + j, by omega, ?_⟩
  rw [canonOf_block h (by omega)]
  congr 1
  omega

/-! ## Runs -/

/-- A call to the page table manager. -/
inductive PageOp where
  | mapMemory (va pa flags : Nat) (isPresent : Bool)
  | unmapMemory (va : Nat)

/-- An address space, and the map it is meant to be. -/
structure Space where
  ph : Phys
  map : Nat → Mapping

/-- One call. The answer says whether every table it needed could be allocated. -/
def step (pml4 : Nat) (st : Space) : PageOp → Space × Bool
  | .mapMemory va pa flags isPresent =>
    let r := mapMemory st.ph pml4 va pa flags isPresent
    let flags := if isPresent then flags ||| 2 ^ present else flags
    (⟨r.1, update st.map va (some (pa, flags))⟩, r.2)
  | .unmapMemory va => (⟨unmapMemory st.ph pml4 va, update st.map va none⟩, true)

/-- The arguments are what the interface is for: canonical pages, page frames, flags. -/
def PageOp.Proper : PageOp → Prop
  | .mapMemory va pa flags _ => Canonical va ∧ PageAddr pa ∧ FlagWord flags
  | .unmapMemory va => Canonical va

/-- Unmapping the address loses no entry that is not present: the address is not mapped, or it is
present and its table has another present page or no other page at all. -/
def KeepsEntries (map : Nat → Mapping) (va : Nat) : Prop :=
  ∀ e ∈ map va, e.2.testBit present = true ∧
    ((∃ j, j < 512 ∧ blockPage va j ≠ va ∧ (map (blockPage va j)).isPresent = true) ∨
      ∀ j, j < 512 → blockPage va j ≠ va → map (blockPage va j) = none)

/-- The call unmaps no page that is not present, and no last present page beside one that is not. -/
def PageOp.Keeps (map : Nat → Mapping) : PageOp → Prop
  | .mapMemory _ _ _ _ => True
  | .unmapMemory va => KeepsEntries map va

instance (map : Nat → Mapping) (va : Nat) : Decidable (KeepsEntries map va) :=
  inferInstanceAs (Decidable (∀ e ∈ map va, _ ∧ ((∃ j, j < 512 ∧ _) ∨ ∀ j, j < 512 → _)))

instance : DecidablePred PageOp.Proper
  | .mapMemory .. => inferInstanceAs (Decidable (_ ∧ _ ∧ _))
  | .unmapMemory va => inferInstanceAs (Decidable (Canonical va))

instance (map : Nat → Mapping) : DecidablePred (PageOp.Keeps map)
  | .mapMemory .. => inferInstanceAs (Decidable True)
  | .unmapMemory va => inferInstanceAs (Decidable (KeepsEntries map va))

/-- A proper call whose table allocations succeed. -/
def Granted (pml4 : Nat) (st : Space) (op : PageOp) : Prop := op.Proper ∧ (step pml4 st op).2 = true

/-- Such a call that loses no entry. -/
def Careful (pml4 : Nat) (st : Space) (op : PageOp) : Prop := Granted pml4 st op ∧ op.Keeps st.map

instance (pml4 : Nat) (st : Space) (op : PageOp) : Decidable (Granted pml4 st op) :=
  inferInstanceAs (Decidable (_ ∧ _))

instance (pml4 : Nat) (st : Space) (op : PageOp) : Decidable (Careful pml4 st op) :=
  inferInstanceAs (Decidable (_ ∧ _))

/-- The tables hold the map. -/
def Represents (pml4 : Nat) (st : Space) : Prop :=
  ∃ T, Holds st.ph T (fun p => st.map (canonOf p)) pml4

/-- A change of the map at an address is one at its page number. -/
theorem update_canonOf {map : Nat → Mapping} (h : Canonical va) {x : Mapping} :
    (fun p => update map va x (canonOf p)) = update (fun p => map (canonOf p)) (pageOf va) x := by
  funext p
  by_cases hp : p = pageOf va
  · subst hp
    rw [update_self, canonOf_pageOf h, update_self]
  · rw [update_of_ne hp, update_of_ne]
    intro heq
    exact hp ((canonOf_eq_iff h).mp heq)

/-- One call keeps the tables and the map in step. -/
theorem step_represents (pml4 : Nat) (st : Space) (op : PageOp) (h : Represents pml4 st)
    (hop : Careful pml4 st op) : Represents pml4 (step pml4 st op).1 := by
  obtain ⟨T, hT⟩ := h
  obtain ⟨⟨hproper, hgranted⟩, hkeeps⟩ := hop
  cases op with
  | mapMemory va pa flags isPresent =>
    obtain ⟨hva, hpa, hflags⟩ := hproper
    have hr : mapMemory st.ph pml4 va pa flags isPresent =
        ((mapMemory st.ph pml4 va pa flags isPresent).1, true) := Prod.ext rfl hgranted
    obtain ⟨T', hT'⟩ := hT.mapMemory hr hpa hflags
    refine ⟨T', ?_⟩
    rw [← update_canonOf hva] at hT'
    exact hT'
  | unmapMemory va =>
    have hva : Canonical va := hproper
    have hat : st.map (canonOf (pageOf va)) = st.map va := by rw [canonOf_pageOf hva]
    have heq : unmapped (fun p => st.map (canonOf p)) (pageOf va) =
        update (fun p => st.map (canonOf p)) (pageOf va) none := by
      apply unmapped_eq
      · intro e he
        rw [hat] at he
        exact (hkeeps e he).1
      intro hmapped
      obtain ⟨e, he⟩ := Option.ne_none_iff_exists'.mp hmapped
      rw [hat] at he
      rcases (hkeeps e he).2 with ⟨j, hj, hne, hpresent⟩ | hnone
      · obtain ⟨q, hq, hqj⟩ := exists_canonOf_block hva hj
        refine .inl ⟨q, hq, ?_, ?_⟩
        · rintro rfl
          rw [canonOf_pageOf hva] at hqj
          exact hne hqj.symm
        · rw [hqj]
          exact hpresent
      refine .inr fun q hq hne => ?_
      have hblock := canonOf_block hva hq
      rw [hblock]
      refine hnone _ (Nat.mod_lt _ (by decide)) fun heq => hne ?_
      exact (canonOf_eq_iff hva).mp (hblock.trans heq)
    obtain ⟨T', hT'⟩ := hT.unmapMemory va
    rw [heq, ← update_canonOf hva] at hT'
    exact ⟨T', hT'⟩

/-- A PML4 without entries, in a frame that the allocator counts as used. -/
structure Fresh (ph : Phys) (pml4 : Nat) : Prop where
  addr : PageAddr pml4
  ne : pml4 ≠ 0
  used : ph.alloc.used (pml4 / pageSize) = true
  empty : ∀ i, i < 512 → entry ph pml4 i = 0
  wf : ph.alloc.WF
  bound : ph.alloc.maxIndex ≤ 2 ^ 40

/-- A fresh PML4 holds the empty map. -/
theorem Fresh.holds {ph : Phys} {pml4 : Nat} (h : Fresh ph pml4) :
    Holds ph (setTable (fun _ _ => none) 4 0 (some pml4)) (fun _ => none) pml4 := by
  have honly : ∀ l k t, setTable (fun _ _ => none) 4 0 (some pml4) l k = some t →
      l = 4 ∧ k = 0 ∧ t = pml4 := by
    intro l k t ht
    rcases setTable_cases ht with ⟨rfl, rfl, ht⟩ | ⟨-, hnone⟩
    · exact ⟨rfl, rfl, (Option.some.inj ht).symm⟩
    · cases hnone
  refine ⟨setTable_self _ _ _ _, ?_, ?_, ?_, ?_, ?_, ?_, fun _ _ => rfl, nofun, h.wf, h.bound⟩
  · intro l k t ht
    obtain ⟨rfl, rfl, -⟩ := honly l k t ht
    decide
  · intro l k t ht hl
    obtain ⟨rfl, -, -⟩ := honly l k t ht
    omega
  · intro l k l' k' t ht ht'
    obtain ⟨rfl, rfl, -⟩ := honly l k t ht
    obtain ⟨rfl, rfl, -⟩ := honly l' k' t ht'
    exact ⟨rfl, rfl⟩
  · intro l k t ht
    obtain ⟨-, -, rfl⟩ := honly l k t ht
    exact ⟨h.addr, h.ne, h.used⟩
  · intro l k t i ht hl hi
    obtain ⟨hl4, rfl, rfl⟩ := honly _ k t ht
    rw [h.empty i hi, setTable_of_ne (by omega)]
    rfl
  · intro k t i ht hi
    obtain ⟨h14, -, -⟩ := honly 1 k t ht
    omega

theorem Fresh.represents {ph : Phys} {pml4 : Nat} (h : Fresh ph pml4) :
    Represents pml4 ⟨ph, fun _ => none⟩ :=
  ⟨_, h.holds⟩

/-! ## Lookups -/

/-- The frame of a mapping, 0 for none. -/
def Mapping.frame (x : Mapping) : Nat := x.elim 0 Prod.fst

theorem getAddress_bits {x : Mapping} (hx : ∀ e, x = some e → PageAddr e.1 ∧ FlagWord e.2) :
    getAddress (bits x) = x.frame := by
  cases x with
  | none => rfl
  | some e => exact getAddress_or (hx e rfl).1 (hx e rfl).2

/-- `get_physical_address` gives the frames of the present pages. -/
theorem Represents.getPhysicalAddress {pml4 : Nat} {st : Space} (h : Represents pml4 st)
    (hva : Canonical va) :
    getPhysicalAddress st.ph pml4 va = if (st.map va).isPresent then (st.map va).frame else 0 := by
  obtain ⟨T, hT⟩ := h
  have hpages := hT.pages (pageOf va)
  have hleaf := hT.leafEntry va
  rw [canonOf_pageOf hva] at hpages hleaf
  have hflag := getFlag_bits fun e he => (hpages e he).1
  have haddr := getAddress_bits hpages
  unfold Paging.getPhysicalAddress
  rcases hleaf with ⟨hnone, hbits⟩ | hsome
  · rw [hbits] at hflag
    rw [hnone, ← hflag]
    rfl
  rw [hsome]
  dsimp only
  rw [hflag, haddr, hva.1, Nat.add_zero]
  cases (st.map va).isPresent <;> rfl

/-- `get_physical_address_ignore_present` gives the frames of all pages. -/
theorem Holds.ignorePresent {ph : Phys} {T : Nat → Nat → Option Nat} {M : Nat → Mapping} {pml4 : Nat}
    (h : Holds ph T M pml4) : getPhysicalAddressIgnorePresent ph pml4 va =
      if (M (pageOf va)).frame = 0 then 0 else (M (pageOf va)).frame + va % pageSize := by
  have haddr := getAddress_bits (h.pages (pageOf va))
  rw [← haddr]
  unfold getPhysicalAddressIgnorePresent
  rcases h.leafEntry va with ⟨hnone, hbits⟩ | hsome
  · rw [hnone, hbits]
    rfl
  · rw [hsome]

theorem Represents.getPhysicalAddressIgnorePresent {pml4 : Nat} {st : Space}
    (h : Represents pml4 st) (hva : Canonical va) :
    getPhysicalAddressIgnorePresent st.ph pml4 va = (st.map va).frame := by
  obtain ⟨T, hT⟩ := h
  rw [hT.ignorePresent, canonOf_pageOf hva, hva.1, Nat.add_zero]
  split
  · next hzero => rw [hzero]
  · rfl

/-- A machine with sixteen frames, the first two in use. -/
def smallPhys : Phys := ⟨⟨fun i => decide (i < 2), 16, 0⟩, fun _ => 0, false⟩

theorem smallPhys_fresh : Fresh smallPhys 4096 := by
  refine ⟨by decide, by decide, by decide, ?_, ⟨by decide, ?_⟩, by decide⟩
  · intro i hi
    simp [entry, smallPhys, ByteMem.load]
  · intro i hi
    exact absurd hi (Nat.not_lt_zero i)

/-- Two pages of one table, the second not present. -/
def twoPages : List PageOp :=
  [.mapMemory 0x400000 0x5000 6 true, .mapMemory 0x401000 0x6000 6 false]

theorem twoPages_careful :
    Along (step 4096) (Careful 4096) ⟨smallPhys, fun _ => none⟩ twoPages := by
  decide +kernel

end Vespera.Paging
