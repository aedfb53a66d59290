import Mathlib.Data.Fintype.Basic
import Mathlib.Data.List.FinRange
import Vespera.Klib.Path
import Vespera.Realm.HandleTable
import Vespera.Security.Credentials

/-! # The realm table

`kernel/realm/realm_manager.cpp`: 64 slots, an id counter and the sequence
counter that readers retry on. `create` fills in a slot and leaves the fields it
does not name as the slot's last occupant left them; when an allocation inside
it fails it returns with the slot taken and the sequence counter odd.

The address space of a realm is only present or absent here.
-/

namespace Vespera.Realms

open Klib Security

abbrev maxRealms : Nat := 64

instance : NeZero maxRealms := ⟨by decide⟩

/-- `class Realm`. -/
structure Realm (ρ : Type) where
  id : Nat
  name : Str
  capabilities : UInt64
  memoryLimit : Nat
  maxUnits : Nat
  hasAddressSpace : Bool
  tlsRegionNext : UInt64
  rootPath : Str
  cwdPath : Str
  exitCode : Int
  exited : Bool
  waiterPresent : Bool
  waitConsumed : Bool
  teardownComplete : Bool
  handleTable : HandleTable ρ
  active : Bool
  pgid : Nat
  sid : Nat
  parentId : Nat
  controllingTty : Option Nat
  cred : ProcessCredentials

/-- A slot of the zero-initialised table. -/
def Realm.zero (ρ : Type) : Realm ρ where
  id := 0
  name := []
  capabilities := 0
  memoryLimit := 0
  maxUnits := 0
  hasAddressSpace := false
  tlsRegionNext := 0
  rootPath := []
  cwdPath := []
  exitCode := 0
  exited := false
  waiterPresent := false
  waitConsumed := false
  teardownComplete := false
  handleTable := .init
  active := false
  pgid := 0
  sid := 0
  parentId := 0
  controllingTty := none
  cred := {}

/-- `struct RealmConfig`. -/
structure RealmConfig where
  name : Option Str
  memoryLimit : Nat := 0
  capabilities : UInt64
  maxUnits : Nat := 0
  isUser : Bool

/-- The static members of `RealmManager`. -/
structure RealmManager (ρ : Type) where
  realms : Fin maxRealms → Realm ρ
  nextId : Nat
  seq : UInt8

/-- Which allocations inside `create` succeed. -/
structure CreateAllocs where
  handleTable : Bool
  addressSpace : Bool
  addressSpaceInit : Bool
deriving Repr, DecidableEq

namespace RealmManager

variable {ρ : Type} {rm rm' : RealmManager ρ} {i j : Fin maxRealms}

/-- Overwrite one slot. -/
def setRealm (rm : RealmManager ρ) (i : Fin maxRealms) (r : Realm ρ) : RealmManager ρ :=
  { rm with realms := Function.update rm.realms i r }

@[simp] theorem setRealm_self {rm : RealmManager ρ} {i : Fin maxRealms} {r : Realm ρ} :
    (rm.setRealm i r).realms i = r := by
  simp [setRealm]

theorem setRealm_of_ne {rm : RealmManager ρ} {r : Realm ρ} (h : j ≠ i) :
    (rm.setRealm i r).realms j = rm.realms j := by
  simp [setRealm, h]

@[simp] theorem setRealm_nextId {rm : RealmManager ρ} {i : Fin maxRealms} {r : Realm ρ} :
    (rm.setRealm i r).nextId = rm.nextId := rfl

/-- The first slot with a property, in table order. -/
def findSlot (rm : RealmManager ρ) (p : Realm ρ → Bool) : Option (Fin maxRealms) :=
  (List.finRange maxRealms).find? fun i => p (rm.realms i)

theorem findSlot_some {p : Realm ρ → Bool} (h : rm.findSlot p = some i) : p (rm.realms i) := by
  simpa using List.find?_some h

variable (rm)

/-- What `create` writes into a free slot before it allocates the address space. -/
def occupy (r : Realm ρ) (cfg : RealmConfig) : Realm ρ :=
  { r with
    id := rm.nextId
    name := match cfg.name with
      | some n => n.take 63
      | none => r.name
    rootPath := ['/']
    cwdPath := ['/']
    memoryLimit := cfg.memoryLimit
    maxUnits := cfg.maxUnits
    active := true
    cred := {}
    capabilities := cfg.capabilities
    handleTable := .init }

/-- `RealmManager::create`: the table, and the slot of the realm unless the
result is `nullptr`. -/
def create (cfg : RealmConfig) (allocs : CreateAllocs) : RealmManager ρ × Option (Fin maxRealms) :=
  match rm.findSlot (!·.active) with
  | none => ({ rm with seq := rm.seq + 2 }, none)
  | some i =>
    let r := rm.occupy (rm.realms i) cfg
    let rm := { rm with nextId := rm.nextId + 1, seq := rm.seq + 1 }
    if !allocs.handleTable then (rm.setRealm i r, none)
    else
      let r := { r with
        exited := false, waiterPresent := false, waitConsumed := false, teardownComplete := false }
      if cfg.isUser then
        if !allocs.addressSpace || !allocs.addressSpaceInit then (rm.setRealm i r, none)
        else
          ({ rm.setRealm i { r with hasAddressSpace := true } with seq := rm.seq + 1 }, some i)
      else ({ rm.setRealm i r with seq := rm.seq + 1 }, some i)

/-- `finalize_locked`: free the slot. -/
def finalizeLocked (i : Fin maxRealms) : RealmManager ρ :=
  { rm.setRealm i { rm.realms i with active := false, id := 0 } with seq := rm.seq + 2 }

/-- The active realm with an id. -/
def findId (id : Nat) : Option (Fin maxRealms) :=
  rm.findSlot fun r => r.active && r.id == id

variable {rm}

theorem findId_some {id : Nat} (h : rm.findId id = some i) :
    (rm.realms i).active ∧ (rm.realms i).id = id := by
  simpa using findSlot_some h

/-- An id is found in the only slot that has it. -/
theorem findId_eq_some {id : Nat} (hi : (rm.realms i).active) (hid : (rm.realms i).id = id)
    (honly : ∀ j, (rm.realms j).active → (rm.realms j).id = id → j = i) :
    rm.findId id = some i := by
  cases hfind : rm.findId id with
  | none =>
    have hnone := List.find?_eq_none.mp hfind i (List.mem_finRange i)
    simp [hi, hid] at hnone
  | some j =>
    obtain ⟨hj, hjid⟩ := findId_some hfind
    rw [honly j hj hjid]

def abort (rm : RealmManager ρ) (id : Nat) : RealmManager ρ :=
  match rm.findId id with
  | none => rm
  | some i =>
    (rm.setRealm i
      { rm.realms i with hasAddressSpace := false, handleTable := .init }).finalizeLocked i

/-- `INIT_REALM_ID`, the realm that inherits orphans. -/
def initRealmId : Nat := 3

/-- One turn of the loop of `destroy` over the children of `id`. -/
def orphan (id : Nat) (rm : RealmManager ρ) (j : Fin maxRealms) : RealmManager ρ :=
  let child := rm.realms j
  if child.active ∧ child.parentId = id then
    if child.exited then rm.finalizeLocked j
    else rm.setRealm j { child with parentId := initRealmId }
  else rm

/-- `RealmManager::destroy`: children are reaped or handed to init, then the
realm becomes a zombie that a waiter may already have consumed. The exit of
init stops the system, so nothing follows it. -/
def destroy (rm : RealmManager ρ) (id : Nat) (exitCode : Int) : RealmManager ρ :=
  match rm.findId id with
  | none => rm
  | some i =>
    if id = initRealmId then rm
    else
      let rm := (List.finRange maxRealms).foldl (orphan id) rm
      let rm := rm.setRealm i { rm.realms i with
        hasAddressSpace := false, handleTable := .init, exited := true, exitCode := exitCode }
      if (rm.realms i).waitConsumed then rm.finalizeLocked i else rm

def markTeardownComplete (rm : RealmManager ρ) (id : Nat) : RealmManager ρ :=
  match rm.findId id with
  | none => rm
  | some i =>
    let rm := rm.setRealm i { rm.realms i with teardownComplete := true }
    if (rm.realms i).waitConsumed then rm.finalizeLocked i else rm

def reap (rm : RealmManager ρ) (id : Nat) : RealmManager ρ :=
  match rm.findId id with
  | none => rm
  | some i =>
    let rm := rm.setRealm i { rm.realms i with waitConsumed := true }
    if (rm.realms i).exited && (rm.realms i).teardownComplete then rm.finalizeLocked i else rm

/-! ## What the table operations leave alone -/

/-- `rm'` has no new realm, and the realms it still has keep id and credentials. -/
structure KeepsCreds (rm rm' : RealmManager ρ) : Prop where
  nextId : rm'.nextId = rm.nextId
  realm : ∀ j, (rm'.realms j).active = true →
    (rm.realms j).active = true ∧ (rm'.realms j).id = (rm.realms j).id ∧
      (rm'.realms j).cred = (rm.realms j).cred

theorem KeepsCreds.refl (rm : RealmManager ρ) : KeepsCreds rm rm := ⟨rfl, fun _ h => ⟨h, rfl, rfl⟩⟩

theorem KeepsCreds.trans {rm'' : RealmManager ρ} (h : KeepsCreds rm rm')
    (h' : KeepsCreds rm' rm'') : KeepsCreds rm rm'' := by
  refine ⟨h'.nextId.trans h.nextId, ?_⟩
  intro j hj
  obtain ⟨hactive', hid', hcred'⟩ := h'.realm j hj
  obtain ⟨hactive, hid, hcred⟩ := h.realm j hactive'
  exact ⟨hactive, hid'.trans hid, hcred'.trans hcred⟩

/-- The realms keep their roots as well. -/
structure KeepsRoots (rm rm' : RealmManager ρ) : Prop extends KeepsCreds rm rm' where
  root : ∀ j, (rm'.realms j).active = true → (rm'.realms j).rootPath = (rm.realms j).rootPath

theorem KeepsRoots.refl (rm : RealmManager ρ) : KeepsRoots rm rm := ⟨.refl rm, fun _ _ => rfl⟩

theorem KeepsRoots.trans {rm'' : RealmManager ρ} (h : KeepsRoots rm rm')
    (h' : KeepsRoots rm' rm'') : KeepsRoots rm rm'' := by
  refine ⟨h.toKeepsCreds.trans h'.toKeepsCreds, ?_⟩
  intro j hj
  exact (h'.root j hj).trans (h.root j (h'.realm j hj).1)

/-- Changing one slot is harmless if it keeps `active`, id, credentials and root. -/
theorem keepsRoots_setRealm {r : Realm ρ}
    (hactive : r.active = (rm.realms i).active) (hid : r.id = (rm.realms i).id)
    (hcred : r.cred = (rm.realms i).cred) (hroot : r.rootPath = (rm.realms i).rootPath) :
    KeepsRoots rm (rm.setRealm i r) := by
  have hslot : ∀ j, ((rm.setRealm i r).realms j).active →
      ((rm.realms j).active ∧ ((rm.setRealm i r).realms j).id = (rm.realms j).id ∧
        ((rm.setRealm i r).realms j).cred = (rm.realms j).cred) ∧
      ((rm.setRealm i r).realms j).rootPath = (rm.realms j).rootPath := by
    intro j hj
    by_cases hij : j = i
    · subst hij
      rw [setRealm_self] at hj ⊢
      exact ⟨⟨hactive ▸ hj, hid, hcred⟩, hroot⟩
    · rw [setRealm_of_ne hij] at hj ⊢
      exact ⟨⟨hj, rfl, rfl⟩, rfl⟩
  exact ⟨⟨rfl, fun j hj => (hslot j hj).1⟩, fun j hj => (hslot j hj).2⟩

/-- The realms that are still active after `finalize_locked` are the others. -/
theorem finalizeLocked_active (h : ((rm.finalizeLocked i).realms j).active) :
    j ≠ i ∧ (rm.finalizeLocked i).realms j = rm.realms j := by
  by_cases hij : j = i
  · -- the finalized slot is not active
    subst hij
    simp [finalizeLocked] at h
  · exact ⟨hij, by simp only [finalizeLocked, setRealm_of_ne hij]⟩

theorem keepsRoots_finalizeLocked : KeepsRoots rm (rm.finalizeLocked i) := by
  refine ⟨⟨rfl, fun j hj => ?_⟩, fun j hj => ?_⟩
  · obtain ⟨-, hsame⟩ := finalizeLocked_active hj
    rw [hsame] at hj ⊢
    exact ⟨hj, rfl, rfl⟩
  · rw [(finalizeLocked_active hj).2]

/-- The shape the operations below share: change a slot, then free it on a
condition. -/
theorem KeepsRoots.finalize_ite (h : KeepsRoots rm rm') {c : Prop} [Decidable c] :
    KeepsRoots rm (if c then rm'.finalizeLocked i else rm') := by
  split
  · exact h.trans keepsRoots_finalizeLocked
  · exact h

theorem keepsRoots_abort (rm : RealmManager ρ) (id : Nat) : KeepsRoots rm (rm.abort id) := by
  unfold abort
  split
  · exact .refl rm
  · refine KeepsRoots.trans ?_ keepsRoots_finalizeLocked
    exact keepsRoots_setRealm rfl rfl rfl rfl

/-- The realms that are still active after `abort` are the others. -/
theorem abort_active {id : Nat}
    (h : ((rm.abort id).realms j).active) : (rm.abort id).realms j = rm.realms j := by
  unfold abort at h ⊢
  split
  · rfl
  next i hfind =>
  rw [hfind] at h
  obtain ⟨hij, hsame⟩ := finalizeLocked_active h
  rw [hsame, setRealm_of_ne hij]

section

variable (rm) (id : Nat)

theorem keepsRoots_orphan (j : Fin maxRealms) : KeepsRoots rm (orphan id rm j) := by
  unfold orphan
  dsimp only
  split_ifs
  · exact keepsRoots_finalizeLocked
  · exact keepsRoots_setRealm rfl rfl rfl rfl
  · exact .refl rm

theorem keepsRoots_foldl_orphan (l : List (Fin maxRealms)) :
    KeepsRoots rm (l.foldl (orphan id) rm) := by
  induction l generalizing rm with
  | nil => exact .refl rm
  | cons j l ih => exact (keepsRoots_orphan rm id j).trans (ih _)

theorem keepsRoots_destroy (exitCode : Int) : KeepsRoots rm (rm.destroy id exitCode) := by
  unfold destroy
  split
  · exact .refl rm
  split
  · exact .refl rm
  refine (keepsRoots_foldl_orphan rm id (List.finRange maxRealms)).trans ?_
  generalize (List.finRange maxRealms).foldl (orphan id) rm = rm'
  apply KeepsRoots.finalize_ite
  exact keepsRoots_setRealm rfl rfl rfl rfl

theorem keepsRoots_markTeardownComplete : KeepsRoots rm (rm.markTeardownComplete id) := by
  unfold markTeardownComplete
  split
  · exact .refl rm
  · apply KeepsRoots.finalize_ite
    exact keepsRoots_setRealm rfl rfl rfl rfl

theorem keepsRoots_reap : KeepsRoots rm (rm.reap id) := by
  unfold reap
  split
  · exact .refl rm
  · apply KeepsRoots.finalize_ite
    exact keepsRoots_setRealm rfl rfl rfl rfl

end

/-! ## What create does -/

/-- `rm'` has the realms of `rm` with their ids and credentials, and possibly
new ones under ids that `rm` had not handed out. -/
structure Grows (rm rm' : RealmManager ρ) : Prop where
  nextId : rm.nextId ≤ rm'.nextId
  realm : ∀ j, (rm'.realms j).active = true →
    ((rm.realms j).active = true ∧ (rm'.realms j).id = (rm.realms j).id ∧
      (rm'.realms j).cred = (rm.realms j).cred) ∨
    (rm.nextId ≤ (rm'.realms j).id ∧ (rm'.realms j).id < rm'.nextId)

theorem KeepsCreds.grows (h : KeepsCreds rm rm') : Grows rm rm' :=
  ⟨h.nextId.ge, fun j hj => .inl (h.realm j hj)⟩

/-- What `create` makes of the free slot `i`: an active realm with the next id, the default
credentials and the root `/`, but with the group and the session of the last realm there. -/
structure Taken (rm rm' : RealmManager ρ) (i : Fin maxRealms) : Prop where
  free : (rm.realms i).active = false
  nextId : rm'.nextId = rm.nextId + 1
  id : (rm'.realms i).id = rm.nextId
  active : (rm'.realms i).active = true
  cred : (rm'.realms i).cred = {}
  root : (rm'.realms i).rootPath = ['/']
  pgid : (rm'.realms i).pgid = (rm.realms i).pgid
  sid : (rm'.realms i).sid = (rm.realms i).sid
  other : ∀ j, j ≠ i → rm'.realms j = rm.realms j

/-- No mark of the slot's last realm is left. -/
def Unmarked (r : Realm ρ) : Prop :=
  r.teardownComplete = false ∧ r.waitConsumed = false ∧ r.exited = false

/-- `create` that fails may still have used up a slot and an id. -/
theorem create_cases {cfg : RealmConfig} {allocs : CreateAllocs} {res : Option (Fin maxRealms)}
    (h : rm.create cfg allocs = (rm', res)) :
    (res = none ∧ rm'.nextId = rm.nextId ∧ rm'.realms = rm.realms) ∨
      ∃ i, Taken rm rm' i ∧ (res = none ∨ res = some i ∧ Unmarked (rm'.realms i)) := by
  unfold create at h
  split at h
  · cases h
    exact .inl ⟨rfl, rfl, rfl⟩
  next i hfree =>
    have hinactive : (rm.realms i).active = false := by simpa using findSlot_some hfree
    refine .inr ⟨i, ?_⟩
    split_ifs at h <;> cases h
    all_goals
      refine ⟨⟨hinactive, rfl, ?_, ?_, ?_, ?_, ?_, ?_, fun j hj => setRealm_of_ne hj⟩, ?_⟩
      all_goals simp [occupy, Unmarked]

theorem create_some {cfg : RealmConfig} {allocs : CreateAllocs}
    (h : rm.create cfg allocs = (rm', some i)) : Taken rm rm' i ∧ Unmarked (rm'.realms i) := by
  rcases create_cases h with ⟨hnone, -⟩ | ⟨j, htaken, hnone | ⟨hres, hmarks⟩⟩
  · cases hnone
  · cases hnone
  · cases hres
    exact ⟨htaken, hmarks⟩

theorem Taken.other_of_active (h : Taken rm rm' i) (hj : (rm.realms j).active) :
    rm'.realms j = rm.realms j := by
  refine h.other j ?_
  rintro rfl
  rw [h.free] at hj
  cases hj

theorem Taken.grows (h : Taken rm rm' i) : Grows rm rm' := by
  have hnext := h.nextId
  have hid := h.id
  refine ⟨by omega, ?_⟩
  intro j hj
  by_cases hij : j = i
  · subst hij
    exact .inr ⟨by omega, by omega⟩
  · rw [h.other j hij] at hj ⊢
    exact .inl ⟨hj, rfl, rfl⟩

theorem create_grows {cfg : RealmConfig} {allocs : CreateAllocs} :
    Grows rm (rm.create cfg allocs).1 := by
  rcases hcreate : rm.create cfg allocs with ⟨rm', res⟩
  rcases create_cases hcreate with ⟨-, hnext, hrealms⟩ | ⟨i, htaken, -⟩
  · refine ⟨hnext.ge, fun j hj => .inl ?_⟩
    rw [hrealms] at hj ⊢
    exact ⟨hj, rfl, rfl⟩
  · exact htaken.grows

/-! ## What happens to one slot -/

@[simp] theorem finalizeLocked_self {rm : RealmManager ρ} {i : Fin maxRealms} :
    ((rm.finalizeLocked i).realms i).active = false := by
  simp [finalizeLocked]

/-- A slot other than the one that is changed and then, on a condition, freed. -/
theorem finalize_ite_of_ne {r : Realm ρ} (h : j ≠ i) {c : Prop} [Decidable c] :
    (if c then (rm.setRealm i r).finalizeLocked i else rm.setRealm i r).realms j = rm.realms j := by
  split
  · simp only [finalizeLocked, setRealm_of_ne h]
  · exact setRealm_of_ne h

/-- `abort` frees the slot of its realm. -/
theorem abort_slot (rm : RealmManager ρ) (id : Nat) (j : Fin maxRealms) :
    (rm.abort id).realms j = rm.realms j ∨ (rm.realms j).active ∧ (rm.realms j).id = id ∧
        ((rm.abort id).realms j).active = false := by
  unfold abort
  split
  · exact .inl rfl
  next i hfind =>
  have hi := findId_some hfind
  by_cases hij : j = i
  · subst hij
    exact .inr ⟨hi.1, hi.2, finalizeLocked_self⟩
  · left
    simp only [finalizeLocked, setRealm_of_ne hij]

/-- `reap` marks its realm as waited for, or frees it. -/
theorem reap_slot (rm : RealmManager ρ) (id : Nat) (j : Fin maxRealms) :
    (rm.reap id).realms j = rm.realms j ∨ (rm.realms j).active ∧ (rm.realms j).id = id ∧
        ((rm.reap id).realms j = { rm.realms j with waitConsumed := true } ∨
          (rm.realms j).exited ∧ (rm.realms j).teardownComplete ∧
            ((rm.reap id).realms j).active = false) := by
  unfold reap
  split
  · exact .inl rfl
  next i hfind =>
  have hi := findId_some hfind
  dsimp only
  by_cases hij : j = i
  · subst hij
    refine .inr ⟨hi.1, hi.2, ?_⟩
    split
    · next hdone =>
      rw [setRealm_self, Bool.and_eq_true] at hdone
      exact .inr ⟨hdone.1, hdone.2, finalizeLocked_self⟩
    · exact .inl (setRealm_self ..)
  · exact .inl (finalize_ite_of_ne hij)

/-- `mark_teardown_complete` marks its realm as torn down, or frees it. -/
theorem markTeardownComplete_slot (rm : RealmManager ρ) (id : Nat) (j : Fin maxRealms) :
    (rm.markTeardownComplete id).realms j = rm.realms j ∨
      (rm.realms j).active ∧ (rm.realms j).id = id ∧
        ((rm.markTeardownComplete id).realms j = { rm.realms j with teardownComplete := true } ∨
          (rm.realms j).waitConsumed ∧ ((rm.markTeardownComplete id).realms j).active = false) := by
  unfold markTeardownComplete
  split
  · exact .inl rfl
  next i hfind =>
  have hi := findId_some hfind
  dsimp only
  by_cases hij : j = i
  · subst hij
    refine .inr ⟨hi.1, hi.2, ?_⟩
    split
    · next hdone =>
      rw [setRealm_self] at hdone
      exact .inr ⟨hdone, finalizeLocked_self⟩
    · exact .inl (setRealm_self ..)
  · exact .inl (finalize_ite_of_ne hij)

/-- What the loop of `destroy` does to a child of `id`. -/
def Orphaned (id : Nat) (child child' : Realm ρ) : Prop :=
  child.active = true ∧ child.parentId = id ∧
    (child.exited = false ∧ child' = { child with parentId := initRealmId } ∨
      child.exited = true ∧ child'.active = false)

theorem orphan_slot (id : Nat) (rm : RealmManager ρ) (i j : Fin maxRealms) :
    (orphan id rm i).realms j = rm.realms j ∨
      Orphaned id (rm.realms j) ((orphan id rm i).realms j) := by
  unfold orphan
  dsimp only
  by_cases hij : j = i
  · subst hij
    split_ifs with hchild hexited
    · exact .inr ⟨hchild.1, hchild.2, .inr ⟨hexited, finalizeLocked_self⟩⟩
    · rw [setRealm_self]
      exact .inr ⟨hchild.1, hchild.2, .inl ⟨by simpa using hexited, rfl⟩⟩
    · exact .inl rfl
  left
  split_ifs
  · simp only [finalizeLocked, setRealm_of_ne hij]
  · exact setRealm_of_ne hij
  · rfl

/-- The loop comes to each child once: the orphans of other turns are no children any more. -/
theorem foldl_orphan_slot {id : Nat} (hid : id ≠ initRealmId) (l : List (Fin maxRealms))
    (rm : RealmManager ρ) (j : Fin maxRealms) : (l.foldl (orphan id) rm).realms j = rm.realms j ∨
      Orphaned id (rm.realms j) ((l.foldl (orphan id) rm).realms j) := by
  induction l generalizing rm with
  | nil => exact .inl rfl
  | cons i l ih =>
    rw [List.foldl_cons]
    rcases ih (orphan id rm i) with hrest | hrest
    · rw [hrest]
      exact orphan_slot id rm i j
    rcases orphan_slot id rm i j with hone | ⟨hactive, hparent, hone⟩
    · rw [hone] at hrest
      exact .inr hrest
    obtain ⟨hactive', hparent', -⟩ := hrest
    rcases hone with ⟨-, hone⟩ | ⟨-, hone⟩
    · rw [hone] at hparent'
      exact absurd hparent'.symm hid
    · rw [hone] at hactive'
      cases hactive'

/-- `destroy` frees the children of its realm that have exited, and the realm itself if a waiter
was there before. -/
theorem destroy_slot (rm : RealmManager ρ) (id : Nat) (code : Int) (j : Fin maxRealms) :
    (rm.destroy id code).realms j = rm.realms j ∨
      Orphaned id (rm.realms j) ((rm.destroy id code).realms j) ∨
      (rm.realms j).active ∧ (rm.realms j).id = id ∧
        ((∃ parent, (rm.destroy id code).realms j = { rm.realms j with
            parentId := parent, hasAddressSpace := false, handleTable := .init, exited := true,
            exitCode := code }) ∨
          (rm.realms j).waitConsumed ∧ ((rm.destroy id code).realms j).active = false) := by
  unfold destroy
  split
  · exact .inl rfl
  next i hfind =>
  have hi := findId_some hfind
  split
  · exact .inl rfl
  next hinit =>
  have hslot := foldl_orphan_slot hinit (List.finRange maxRealms) rm j
  generalize (List.finRange maxRealms).foldl (orphan id) rm = rm1 at hslot
  dsimp only
  by_cases hij : j = i
  · subst hij
    rw [setRealm_self]
    rcases hslot with hsame | ⟨hactive, hparent, hchild⟩
    · refine .inr (.inr ⟨hi.1, hi.2, ?_⟩)
      rw [hsame]
      split
      · next hconsumed => exact .inr ⟨hconsumed, finalizeLocked_self⟩
      · exact .inl ⟨(rm.realms j).parentId, setRealm_self ..⟩
    -- the realm is its own parent
    · rcases hchild with ⟨-, hchild⟩ | ⟨hexited, hchild⟩
      · refine .inr (.inr ⟨hi.1, hi.2, ?_⟩)
        rw [hchild]
        split
        · next hconsumed => exact .inr ⟨hconsumed, finalizeLocked_self⟩
        · exact .inl ⟨initRealmId, setRealm_self ..⟩
      refine .inr (.inl ⟨hactive, hparent, .inr ⟨hexited, ?_⟩⟩)
      split
      · exact finalizeLocked_self
      · rw [setRealm_self]
        exact hchild
  · rw [finalize_ite_of_ne hij]
    exact hslot.imp_right .inl

end RealmManager

end Vespera.Realms
