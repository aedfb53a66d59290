import Vespera.Realm.HandleTable

/-! # Adding and transferring handles

`HandleTable::add` and `acquire` of `kernel/realm/handle_table.cpp` and
`transfer_handle_to_realm` of `kernel/realm/handle_transfer.cpp`.

Whether an entry has an `acquire` callback depends on the kind of its resource: `hasAcquire`.
The count that the callback raises is the resource's own; a resource is never null here.

Each operation is described by what `lookup` finds afterwards: `lookup_acquire`,
`lookup_release`, `lookup_add`.
-/

namespace Vespera.Realms

open Klib

namespace HandleTable

variable {ρ : Type}

/-- The loop of `HandleTable::find_free_slot`: the first clear bit among `n` slots. -/
def findFreeSlotFrom (t : HandleTable ρ) : Nat → Nat → Option Nat
  | 0, _ => none
  | n + 1, i => if (t.entries i).isSome then findFreeSlotFrom t n (i + 1) else some i

/-- `HandleTable::find_free_slot`: the slots 0 to 3 are reserved. -/
def findFreeSlot (t : HandleTable ρ) : Option Nat := t.findFreeSlotFrom (maxHandlesPerRealm - 4) 4

/-- `type | (slot & HANDLE_ID_MASK)`. -/
def hidOf (type : HandleType) (slot : Nat) : UInt64 :=
  type.bits ||| (UInt64.ofNat slot &&& 0x0000FFFFFFFFFFFF)

/-- `HandleTable::add`: the table and the new handle. -/
def add (t : HandleTable ρ) (type : HandleType) (resource : ρ) (caps : UInt64)
    (transferable : Bool) : Except Error (HandleTable ρ × UInt64) :=
  match t.findFreeSlot with
  | none => .error .noMem
  | some slot =>
    let hid := hidOf type slot
    .ok (t.setSlot slot (some ⟨hid, type, resource, caps, 1, transferable⟩), hid)

def acquire (t : HandleTable ρ) (hid : UInt64) : HandleTable ρ :=
  match t.lookup hid with
  | none => t
  | some he => t.setSlot (slotOf hid) (some { he with refcount := he.refcount + 1 })

end HandleTable

/-- `transfer_handle_to_realm`: the table of `dst` and the new handle. -/
def transferHandleToRealm {ρ : Type} (hasAcquire : ρ → Bool) (src : HandleEntry ρ)
    (dst : HandleTable ρ) (capsMask : UInt64) : Except Error (HandleTable ρ × UInt64) :=
  if src.transferable = false then .error .acces
  else
    let granted := src.capabilities &&& capsMask
    if granted = 0 then .error .acces
    else if hasAcquire src.resource = false then .error .inval
    else dst.add src.type src.resource granted true

namespace HandleTable

variable {ρ : Type} {t : HandleTable ρ} {hid : UInt64} {he : HandleEntry ρ}

/-! ## What lookup finds -/

theorem lookup_eq_some : t.lookup hid = some he ↔
      slotOf hid < maxHandlesPerRealm ∧ t.entries (slotOf hid) = some he ∧ he.hid = hid := by
  unfold lookup
  simp only
  split
  · simp only [reduceCtorEq, false_iff]
    omega
  cases hslot : t.entries (slotOf hid) with
  | none => simp
  | some e =>
    by_cases he' : e.hid = hid
    · simp only [he', ne_eq, not_true_eq_false, if_false, Option.some.injEq]
      constructor
      · rintro rfl
        exact ⟨by omega, rfl, he'⟩
      · exact fun h => h.2.1
    · simp only [ne_eq, he', not_false_eq_true, if_true, reduceCtorEq, Option.some.injEq, false_iff]
      rintro ⟨-, rfl, h⟩
      exact he' h

/-- Overwriting the slot of a handle that is found, under the same handle. -/
theorem lookup_setSlot_found {e : HandleEntry ρ} (h : t.lookup hid = some he) (he' : e.hid = hid)
    (k : UInt64) :
    (t.setSlot (slotOf hid) (some e)).lookup k = if k = hid then some e else t.lookup k := by
  obtain ⟨hlt, hentry, hhid⟩ := lookup_eq_some.mp h
  by_cases hk : k = hid
  · subst hk
    rw [if_pos rfl]
    exact lookup_eq_some.mpr ⟨hlt, setSlot_entries_self _ _ _, he'⟩
  rw [if_neg hk]
  by_cases hslot : slotOf k = slotOf hid
  · -- the slot holds an entry with another handle, before and after
    unfold lookup
    simp only [hslot, setSlot_entries_self, hentry, he', hhid, ne_eq, Ne.symm hk,
      not_false_eq_true, if_true]
  · unfold lookup
    simp only [setSlot, hslot, if_false]

theorem lookup_acquire (h : t.lookup hid = some he) {k : UInt64} : (t.acquire hid).lookup k =
      if k = hid then some { he with refcount := he.refcount + 1 } else t.lookup k := by
  unfold acquire
  rw [h]
  exact lookup_setSlot_found (e := { he with refcount := he.refcount + 1 }) h
    (lookup_eq_some.mp h).2.2 k

theorem acquire_of_lookup_none (h : t.lookup hid = none) : t.acquire hid = t := by
  unfold acquire
  rw [h]

/-- A release that is not the last one. -/
theorem lookup_release (h : t.lookup hid = some he) (hcount : 2 ≤ he.refcount) {k : UInt64} :
    (t.release hid).1.lookup k =
      if k = hid then some { he with refcount := he.refcount - 1 } else t.lookup k := by
  unfold release
  rw [h]
  simp only
  rw [if_neg (by omega)]
  exact lookup_setSlot_found (e := { he with refcount := he.refcount - 1 }) h
    (lookup_eq_some.mp h).2.2 k

theorem release_of_lookup_none (h : t.lookup hid = none) : (t.release hid).1 = t := by
  unfold release
  rw [h]

/-! ## The new handle -/

theorem findFreeSlotFrom_some {n i slot : Nat} (h : t.findFreeSlotFrom n i = some slot) :
    i ≤ slot ∧ slot < i + n ∧ t.entries slot = none := by
  induction n generalizing i with
  | zero => cases h
  | succ n ih =>
    unfold findFreeSlotFrom at h
    split at h
    · obtain ⟨hle, hlt, hfree⟩ := ih h
      exact ⟨by omega, by omega, hfree⟩
    next htaken =>
      cases h
      exact ⟨Nat.le_refl _, by omega, by simpa using htaken⟩

theorem findFreeSlot_some {slot : Nat} (h : t.findFreeSlot = some slot) :
    slot < maxHandlesPerRealm ∧ t.entries slot = none := by
  obtain ⟨-, hlt, hfree⟩ := findFreeSlotFrom_some h
  simp only [maxHandlesPerRealm] at hlt ⊢
  exact ⟨by omega, hfree⟩

theorem bits_and_mask {type : HandleType} : type.bits &&& 0x0000FFFFFFFFFFFF = 0 := by
  cases type <;> decide

theorem slotOf_hidOf (type : HandleType) {slot : Nat} (h : slot < maxHandlesPerRealm) :
    slotOf (hidOf type slot) = slot := by
  simp only [maxHandlesPerRealm] at h
  have hbits : type.bits.toNat &&& (2 ^ 48 - 1) = 0 := congrArg UInt64.toNat bits_and_mask
  have hslot : slot &&& (2 ^ 48 - 1) = slot := by
    rw [Nat.and_two_pow_sub_one_eq_mod, Nat.mod_eq_of_lt (by omega)]
  have hmod : (UInt64.ofNat slot).toNat = slot := by
    rw [UInt64.toNat_ofNat', Nat.mod_eq_of_lt (by omega)]
  have hmask : (0x0000FFFFFFFFFFFF : UInt64).toNat = 2 ^ 48 - 1 := rfl
  unfold slotOf hidOf
  rw [UInt64.toNat_and, UInt64.toNat_or, UInt64.toNat_and, hmod, hmask, Nat.and_or_distrib_right,
    hbits, hslot, hslot, Nat.zero_or]

/-- After `add` the new handle is found, and every other one as before. -/
theorem lookup_add {type : HandleType} {resource : ρ} {caps : UInt64} {transferable : Bool}
    {t' : HandleTable ρ} (h : t.add type resource caps transferable = .ok (t', hid)) (k : UInt64) :
    t.lookup hid = none ∧ t'.lookup k =
      if k = hid then some ⟨hid, type, resource, caps, 1, transferable⟩ else t.lookup k := by
  unfold add at h
  split at h
  · cases h
  next slot hslot =>
    obtain ⟨hlt, hfree⟩ := findFreeSlot_some hslot
    cases h
    have hhid := slotOf_hidOf type hlt
    refine ⟨by simp [lookup, hhid, hfree], ?_⟩
    by_cases hk : k = hidOf type slot
    · subst hk
      rw [if_pos rfl]
      exact lookup_eq_some.mpr ⟨by rw [hhid]; exact hlt, by simp [hhid], rfl⟩
    rw [if_neg hk]
    by_cases hsame : slotOf k = slot
    · -- the slot was free, and its new entry has another handle
      simp [lookup, hsame, hfree, Ne.symm hk]
    · simp [lookup, setSlot, hsame]

end HandleTable

/-- What a transfer that succeeds did. -/
theorem transferHandleToRealm_ok {ρ : Type} {hasAcquire : ρ → Bool} {src : HandleEntry ρ}
    {dst dst' : HandleTable ρ} {capsMask hid : UInt64}
    (h : transferHandleToRealm hasAcquire src dst capsMask = .ok (dst', hid)) :
    src.transferable ∧ src.capabilities &&& capsMask ≠ 0 ∧ hasAcquire src.resource ∧
      dst.add src.type src.resource (src.capabilities &&& capsMask) true = .ok (dst', hid) := by
  unfold transferHandleToRealm at h
  split at h
  · cases h
  simp only at h
  split at h
  · cases h
  split at h
  · cases h
  · exact ⟨by simpa using ‹¬ src.transferable = false›, ‹_›,
      by simpa using ‹¬ hasAcquire src.resource = false›, h⟩

end Vespera.Realms
