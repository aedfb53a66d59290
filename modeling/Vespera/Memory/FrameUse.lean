import Vespera.Memory.VmSystem

/-! # The uses of a frame

Where a frame can be in use: as a table, at a page, in an object, as the trampoline, by the kernel
or in a run of a unit. What the lemmas say is what is in use after a page table or an object has
changed.
-/

namespace Vespera.Memory

open Lib

/-! ## Sites -/

/-- The places where a frame is in use. -/
inductive Site where
  | pml4 (r : Nat)
  | table (r level key : Nat)
  | leaf (r page : Nat)
  | object (o i : Nat)
  | trampoline
  | kernel (f : Nat)
  | run (u : Nat) (kind : RunKind) (i : Nat)
deriving DecidableEq

namespace VmSt

/-- The entry of a page of a realm, present or not. -/
def leafAt (st : VmSt) (r p : Nat) : Option Pte := (st.space r).bind fun pt => pt.leaf p

/-- The `i`-th page of an object, if it is there. -/
def pageAt (b : Option Backing) (i : Nat) : Option Nat :=
  b.bind fun b => (b.pages[i]?).filter fun f => f ≠ 0

/-- The `i`-th frame of a unit's run. -/
def runAt (x : Option VmUnit) (kind : RunKind) (i : Nat) : Option Nat :=
  (x.bind fun x => x.run kind).bind fun f => if i < f.pages then some (f.phys + i * pageSize) else none

/-- The frame in use at a place. -/
def frameAt (st : VmSt) : Site → Option Nat
  | .pml4 r => (st.space r).map PageTable.pml4
  | .table r level key => (st.space r).bind fun pt => pt.table level key
  | .leaf r p => (st.leafAt r p).map Pte.frame
  | .object o i => pageAt (st.obj o) i
  | .trampoline => some st.trampoline
  | .kernel f => if f ∈ st.kernelFrames then some f else none
  | .run u kind i => runAt (st.unit u) kind i

/-! ## Changes -/

variable {st : VmSt}

/-- The state after the page table of a realm has changed. -/
abbrev setTable (st : VmSt) (r : Nat) (ph : Phys) (pt : PageTable) : VmSt :=
  { st with phys := ph, space := Function.update st.space r (some pt) }

theorem leafAt_setTable {r : Nat} {ph : Phys} {pt : PageTable} {r' p : Nat} :
    (st.setTable r ph pt).leafAt r' p = if r' = r then pt.leaf p else st.leafAt r' p := by
  by_cases hr : r' = r
  · subst hr
    simp [leafAt]
  · simp [leafAt, hr]

/-- Where `mprotect` finds a frame there is an entry, and mapping it again replaces the entry. -/
theorem mapPage_of_entry {r va : Nat} (h : st.physicalAddressIgnorePresent r va ≠ 0) (pa : Nat)
    (writable present : Bool) (origin : Origin) :
    ∃ pt e t, st.space r = some pt ∧ pt.entry va = some e ∧ pt.InTable t ∧
      st.physicalAddressIgnorePresent r va = e.frame + va % pageSize ∧
      st.originOf r va = e.origin ∧
      st.mapPage r va pa writable present origin =
        let leaf : Pte := ⟨frameOf pa, present, writable, origin⟩
        st.setTable r (st.phys.setEntry t (pageOf va % 512) leaf.bits)
          { pt with leaf := Function.update pt.leaf (pageOf va) (some leaf) } := by
  cases hpt : st.space r with
  | none => simp [physicalAddressIgnorePresent, hpt] at h
  | some pt =>
    cases hentry : pt.entry va with
    | none =>
      simp [physicalAddressIgnorePresent, hpt, PageTable.getPhysicalAddressIgnorePresent, hentry] at h
    | some e =>
      have hphys : st.physicalAddressIgnorePresent r va = e.frame + va % pageSize := by
        simp only [physicalAddressIgnorePresent, hpt, Option.map_some, Option.getD_some,
          PageTable.getPhysicalAddressIgnorePresent, hentry] at h ⊢
        rw [if_neg fun h0 => h (if_pos h0)]
      obtain ⟨t, ht, heq⟩ := PageTable.mapMemory_of_entry hentry st.phys pa writable present origin
      refine ⟨pt, e, t, rfl, hentry, ht, hphys, by simp [originOf, hpt, hentry], ?_⟩
      unfold VmSt.mapPage
      simp only [hpt, heq, PageTable.setLeaf]

/-- The entries after `map_memory`. -/
theorem leafAt_mapPage {r r' va pa p : Nat} {writable present : Bool} {origin : Origin} {e : Pte}
    (h : (st.mapPage r va pa writable present origin).leafAt r' p = some e) :
    st.leafAt r' p = some e ∨
      (r' = r ∧ p = pageOf va ∧ e = ⟨frameOf pa, present, writable, origin⟩) := by
  unfold VmSt.mapPage at h
  cases hpt : st.space r with
  | none =>
    rw [hpt] at h
    exact .inl h
  | some pt =>
    obtain ⟨ph', pt', heq, -, hleaf⟩ :=
      PageTable.mapMemory_spec st.phys pt va pa writable present origin
    simp only [hpt, heq] at h
    rw [leafAt_setTable] at h
    split_ifs at h with hr
    · subst hr
      have hold : st.leafAt r' p = pt.leaf p := by rw [leafAt, hpt, Option.bind_some]
      rcases hleaf with hl | hl
      · exact .inl (hold.trans (hl ▸ h))
      rw [hl] at h
      rcases update_eq_some h with ⟨rfl, ⟨⟩⟩ | ⟨-, h⟩
      · exact .inr ⟨rfl, rfl, rfl⟩
      · exact .inl (hold.trans h)
    · exact .inl h

theorem leafAt_unmapPage {r r' va p : Nat} {e : Pte}
    (h : (st.unmapPage r va).leafAt r' p = some e) : st.leafAt r' p = some e := by
  unfold VmSt.unmapPage at h
  cases hpt : st.space r with
  | none =>
    rw [hpt] at h
    exact h
  | some pt =>
    rw [hpt] at h
    dsimp only at h
    rw [leafAt_setTable] at h
    split_ifs at h with hr
    · subst hr
      rw [leafAt, hpt]
      exact (PageTable.unmapMemory_spec st.phys pt va).leaf p e h
    · exact h

/-- A store changes the memory and the page table. -/
theorem store_eq (st : VmSt) (r va : Nat) (b : UInt8) :
    ∃ ph sp, st.store r va b = { st with phys := ph, space := sp } := by
  unfold store
  split
  · split_ifs
    · exact ⟨_, _, rfl⟩
    · exact ⟨_, _, rfl⟩
  · exact ⟨_, _, rfl⟩

/-- A store leaves the entries as they are, but for the mark that the page was written. -/
theorem leafAt_store {r r' va p : Nat} {b : UInt8} {e' : Pte}
    (h : (st.store r va b).leafAt r' p = some e') : ∃ e, st.leafAt r' p = some e ∧
      (e'.origin = e.origin ∨ e'.origin = e.origin.written) := by
  unfold store at h
  split at h
  · rename_i e he
    split_ifs at h
    · obtain ⟨pt, hpt, -, -⟩ := userEntry_some he
      rw [hpt, Option.map_some, leafAt_setTable] at h
      split_ifs at h with hr
      · obtain ⟨e, he, -, -, horigin⟩ := PageTable.markWritten_leaf h
        refine ⟨e, by rw [hr, leafAt, hpt]; exact he, ?_⟩
        rcases horigin with ⟨-, ho⟩ | ⟨-, rfl⟩
        · exact .inr ho
        · exact .inl rfl
      · exact ⟨e', h, .inl rfl⟩
    · exact ⟨e', h, .inl rfl⟩
  · exact ⟨e', h, .inl rfl⟩

end VmSt

end Vespera.Memory
