import Mathlib.Data.List.Perm.Basic
import Vespera.Lib.Run

/-! # The user stacks of a realm

`UserStackAllocator` of `kernel/realm/user_stack_allocator.cpp`, as `setup_stacks` and
`release_resources` of `UnitManager` use it. The distance between slots is fixed once for the
address space, but `setup_stacks` maps as much as the configuration of the unit asks for, from the
start of its slot on: stacks that fit in a slot are apart (`user_stacks_separate`), and a larger
one runs into the stack above it (`user_stacks_collide`).
-/

namespace Vespera.Realms

open Lib Function

def pageAlignUp (v : Nat) : Nat := (v + 0xFFF) / 0x1000 * 0x1000

/-- `UserStackAllocator`; `bitmap i` is bit `i` of `bitmap_`. -/
structure UserStackAllocator where
  slotStackSize : Nat
  slotSize : Nat
  maxSlots : Nat
  bitmap : Nat → Bool

namespace UserStackAllocator

def regionTop : Nat := 0x00007FFF30000000
def regionBase : Nat := 0x00007FFF00000000
def guardSize : Nat := 0x1000

def init (slotStackSize : Nat) : UserStackAllocator :=
  let stack := pageAlignUp (if slotStackSize = 0 then 0x1000 else slotStackSize)
  { slotStackSize := stack
    slotSize := stack + guardSize
    maxSlots := min ((regionTop - regionBase) / (stack + guardSize)) 64
    bitmap := fun _ => false }

/-- The base that `slot_to_range` gives. -/
def slotBase (a : UserStackAllocator) (i : Nat) : Nat :=
  regionTop - i * a.slotSize - a.slotStackSize

/-- `alloc`: the index of the slot, if one is free. -/
def alloc (a : UserStackAllocator) : Option (Nat × UserStackAllocator) :=
  match (List.range a.maxSlots).find? fun i => !a.bitmap i with
  | none => none
  | some i => some (i, { a with bitmap := update a.bitmap i true })

def free (a : UserStackAllocator) (i : Nat) : UserStackAllocator :=
  if i ≥ a.maxSlots then a else { a with bitmap := update a.bitmap i false }

variable {a a' : UserStackAllocator} {i : Nat}

theorem alloc_some (h : a.alloc = some (i, a')) : i < a.maxSlots ∧ a.bitmap i = false ∧
    a' = { a with bitmap := update a.bitmap i true } := by
  unfold alloc at h
  split at h
  · cases h
  next hfind =>
  cases h
  have hfree := List.find?_some hfind
  exact ⟨List.mem_range.mp (List.mem_of_find?_eq_some hfind), by simpa using hfree, rfl⟩

/-- A slot that is given back at once leaves no trace. -/
theorem free_alloc (h : a.alloc = some (i, a')) : a'.free i = a := by
  obtain ⟨hi, hclear, rfl⟩ := alloc_some h
  have hupdate : update (update a.bitmap i true) i false = a.bitmap := by
    rw [update_idem, ← hclear, update_eq_self]
  rw [free, if_neg (Nat.not_le.mpr hi), hupdate]

end UserStackAllocator

open UserStackAllocator

/-! ## Units -/

/-- `DEFAULT_UNIT_STACK_SIZE`, for which the slots of a realm are made. -/
def defaultUnitStackSize : Nat := 8 * 1024 * 1024

/-- What `setup_stacks` reads of a `UnitConfig`. -/
structure StackConfig where
  isUser : Bool
  stackSize : Nat
  userStackSize : Nat

/-- The `user_stack_size` that `setup_stacks` chooses. -/
def StackConfig.userSize (cfg : StackConfig) : Nat :=
  let stackSize := if cfg.stackSize = 0 then defaultUnitStackSize else cfg.stackSize
  if cfg.userStackSize = 0 then stackSize else cfg.userStackSize

/-- `user_stack_slot`, `user_stack_virt_base` and `user_stack_size` of a unit. -/
structure StackUnit where
  slot : Nat
  virtBase : Nat
  size : Nat
deriving DecidableEq

/-- The address is in the pages mapped for the stack. -/
def StackUnit.Has (u : StackUnit) (addr : Nat) : Prop :=
  u.virtBase ≤ addr ∧ addr < u.virtBase + pageAlignUp u.size

/-- The page below the stack of `u` is not in the stack of `v`. -/
def StackUnit.GuardFrom (u v : StackUnit) : Prop :=
  ∀ addr, u.virtBase ≤ addr + guardSize → addr < u.virtBase → ¬ v.Has addr

/-- The slots of a realm, and its live units with a user stack. -/
structure StackRealm where
  slots : UserStackAllocator
  live : List StackUnit

namespace StackRealm

variable {r : StackRealm}

/-- A realm as `RealmManager::create` leaves it. -/
def boot : StackRealm := ⟨.init defaultUnitStackSize, []⟩

/-- `setup_stacks`, given whether there are frames for the two stacks. -/
def setupStacks (r : StackRealm) (cfg : StackConfig) (userFrames kernelFrames : Bool) :
    StackRealm × Bool :=
  if cfg.isUser then
    match r.slots.alloc with
    | none => (r, false)
    | some (i, slots) =>
      if !userFrames then ({ r with slots := slots.free i }, false)
      else if !kernelFrames then ({ r with slots := slots.free i }, false)
      else (⟨slots, ⟨i, slots.slotBase i, cfg.userSize⟩ :: r.live⟩, true)
  else (r, kernelFrames)

def releaseResources (r : StackRealm) (u : StackUnit) : StackRealm :=
  ⟨r.slots.free u.slot, r.live.erase u⟩

inductive StackOp where
  | create (cfg : StackConfig) (userFrames kernelFrames : Bool)
  | terminate (u : StackUnit)

def stackStep (r : StackRealm) : StackOp → StackRealm × Bool
  | .create cfg userFrames kernelFrames => r.setupStacks cfg userFrames kernelFrames
  | .terminate u => (if u ∈ r.live then r.releaseResources u else r, true)

/-- A unit that is created asks for no more than a slot has. -/
def StackOp.Fits : StackOp → Prop
  | .create cfg _ _ => cfg.isUser = true → cfg.userSize ≤ defaultUnitStackSize
  | .terminate _ => True

/-- The stacks are disjoint and in their region, and the page below each is in no other stack. -/
structure Separate (r : StackRealm) : Prop where
  disjoint : r.live.Pairwise fun u v => ∀ addr, ¬ (u.Has addr ∧ v.Has addr)
  region : ∀ u ∈ r.live, ∀ addr, u.Has addr → regionBase ≤ addr ∧ addr < regionTop
  guarded : r.live.Pairwise fun u v => u.GuardFrom v ∧ v.GuardFrom u

/-- The live units have slots of their own, and stacks that fit in them. -/
structure SlotsHeld (r : StackRealm) : Prop where
  sizes : r.slots.slotStackSize = defaultUnitStackSize ∧
    r.slots.slotSize = defaultUnitStackSize + guardSize ∧ r.slots.maxSlots = 64
  distinct : r.live.Pairwise fun u v => u.slot ≠ v.slot
  held : ∀ u ∈ r.live, u.slot < 64 ∧ r.slots.bitmap u.slot = true ∧
    u.virtBase = r.slots.slotBase u.slot ∧ u.size ≤ defaultUnitStackSize

section

variable (h : SlotsHeld r)

include h

theorem SlotsHeld.bounds {u : StackUnit} (hu : u ∈ r.live) :
    u.slot < 64 ∧ u.virtBase + u.slot * 0x801000 + 0x800000 = regionTop ∧
      pageAlignUp u.size ≤ 0x800000 := by
  obtain ⟨hslot, -, hbase, hsize⟩ := h.held u hu
  rw [slotBase, h.sizes.1, h.sizes.2.1] at hbase
  unfold pageAlignUp
  simp only [defaultUnitStackSize, guardSize, regionTop] at *
  omega

theorem SlotsHeld.separate : Separate r := by
  -- two slots are a guard page apart
  have hapart : ∀ {u v}, u ∈ r.live → v ∈ r.live → u.slot ≠ v.slot →
      (∀ addr, ¬ (u.Has addr ∧ v.Has addr)) ∧ u.GuardFrom v := by
    intro u v hu hv hne
    have hu := h.bounds hu
    have hv := h.bounds hv
    unfold StackUnit.GuardFrom StackUnit.Has guardSize
    refine ⟨fun addr => ?_, fun addr => ?_⟩ <;> omega
  refine ⟨h.distinct.imp_of_mem fun hu hv hne => (hapart hu hv hne).1, fun u hu addr haddr => ?_,
    h.distinct.imp_of_mem fun hu hv hne => ⟨(hapart hu hv hne).2, (hapart hv hu hne.symm).2⟩⟩
  have hu := h.bounds hu
  unfold StackUnit.Has at haddr
  simp only [regionTop, regionBase] at *
  omega

theorem SlotsHeld.create {cfg : StackConfig}
    (hfits : cfg.isUser → cfg.userSize ≤ defaultUnitStackSize)
    (userFrames kernelFrames : Bool) : SlotsHeld (r.setupStacks cfg userFrames kernelFrames).1 := by
  unfold setupStacks
  split
  · next huser =>
    split
    · exact h
    next i slots halloc =>
    have hfailed : SlotsHeld { r with slots := slots.free i } := (free_alloc halloc).symm ▸ h
    split
    · exact hfailed
    split
    · exact hfailed
    -- no live unit has the slot, since its bit was clear
    obtain ⟨hi, hclear, rfl⟩ := alloc_some halloc
    have hnew : ∀ v ∈ r.live, i ≠ v.slot := by
      rintro v hv rfl
      rw [(h.held v hv).2.1] at hclear
      cases hclear
    refine ⟨h.sizes, List.pairwise_cons.mpr ⟨hnew, h.distinct⟩, ?_⟩
    intro u hu
    rcases List.mem_cons.mp hu with rfl | hu
    · exact ⟨h.sizes.2.2 ▸ hi, update_self .., rfl, hfits huser⟩
    · obtain ⟨hslot, hbit, hrest⟩ := h.held u hu
      exact ⟨hslot, (update_of_ne (hnew u hu).symm ..).trans hbit, hrest⟩
  · exact h

theorem SlotsHeld.terminate {u : StackUnit} (hu : u ∈ r.live) :
    SlotsHeld (r.releaseResources u) := by
  have hothers : ∀ v ∈ r.live.erase u, u.slot ≠ v.slot :=
    (List.pairwise_cons.mp (((List.perm_cons_erase hu).pairwise_iff Ne.symm).mp h.distinct)).1
  have hmax : ¬ u.slot ≥ r.slots.maxSlots := by
    rw [h.sizes.2.2]
    exact Nat.not_le.mpr (h.held u hu).1
  unfold releaseResources free
  rw [if_neg hmax]
  refine ⟨h.sizes, h.distinct.sublist List.erase_sublist, ?_⟩
  intro v hv
  obtain ⟨hslot, hbit, hrest⟩ := h.held v (List.mem_of_mem_erase hv)
  exact ⟨hslot, (update_of_ne (hothers v hv).symm ..).trans hbit, hrest⟩

end

theorem SlotsHeld.step (r : StackRealm) (op : StackOp) (h : SlotsHeld r) (hfits : op.Fits) :
    SlotsHeld (r.stackStep op).1 := by
  cases op with
  | create cfg userFrames kernelFrames => exact h.create hfits userFrames kernelFrames
  | terminate u =>
    show SlotsHeld (if u ∈ r.live then r.releaseResources u else r)
    split
    · next hu => exact h.terminate hu
    · exact h

/-- The stacks of a realm, as long as no unit gets one that is larger than a slot. -/
theorem user_stacks_separate (ops : List StackOp)
    (h : Along stackStep (fun _ op => op.Fits) boot ops) : Separate (final stackStep boot ops) := by
  have hboot : SlotsHeld boot := ⟨by decide, .nil, fun _ h => nomatch h⟩
  exact (final_invariant_along SlotsHeld.step hboot h).separate

theorem user_stacks_separate_three :
    Separate (final stackStep boot [.create ⟨true, 0, 0⟩ true true,
      .create ⟨true, 0, 0x10001⟩ true true, .terminate ⟨0, regionTop - 0x800000, 0x800000⟩,
      .create ⟨true, 0x4000, 0⟩ true true]) :=
  user_stacks_separate _
    ⟨fun _ => by decide, fun _ => by decide, trivial, fun _ => by decide, trivial⟩

/-- The second unit gets 16 MiB from the start of a slot for 8 MiB on. -/
theorem user_stacks_collide :
    ¬ Separate (final stackStep boot
      [.create ⟨true, 0, 0⟩ true true, .create ⟨true, 0, 0x1000000⟩ true true]) := by
  intro h
  have hdisjoint := h.disjoint
  refine (List.pairwise_cons.mp hdisjoint).1 _ List.mem_cons_self (regionTop - 0x800000) ?_
  unfold StackUnit.Has
  decide

end StackRealm

end Vespera.Realms
