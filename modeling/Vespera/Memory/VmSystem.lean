import Vespera.Lib.Run
import Vespera.Memory.Vm

/-! # Realms and units over virtual memory

The life of realms and units as far as it concerns frames: `AddressSpace::init` and `destroy`,
the stacks and the thread-local block of a unit (`setup_stacks` and `setup_tls_block`), and
`release_resources`. With the memory calls of `Vm.lean`, the calls for shared memory and files,
the accesses of a running unit and what the kernel takes for itself, these are the steps of the
system.

`release_resources` unmaps the stacks in the kernel's page table, so the entries of the realm
stay. `free_vma_list` forgets the areas, and their objects keep the mappings they counted.
-/

namespace Vespera.Memory

open Klib Function Lib Realms Vfs

namespace VmSt

/-! ## Realms -/

def trampolineVaddr : Nat := 0x00007FFF80000000

/-- The half of the PML4 that all address spaces have in common. -/
def copyKernelHalf (mem : ByteMem) (pml4 kernelPml4 : Nat) : ByteMem :=
  mem.copy (pml4 + 2048) (kernelPml4 + 2048) 2048

/-- A page table without entries. -/
def emptyTable (pml4 : Nat) : PageTable := ⟨pml4, fun _ _ => none, fun _ => none⟩

variable (st : VmSt)

/-- `AddressSpace::init` for a new realm. -/
def createRealm (r : Nat) : VmSt × Option Int :=
  if (st.space r).isSome then (st, some Error.again.toErrno)
  else
    let x := st.requestPage
    if x.2 = 0 then (x.1, some Error.noMem.toErrno)
    else
      let st := x.1.zeroPage x.2
      let st := { st with
        phys := { st.phys with mem := copyKernelHalf st.phys.mem x.2 st.kernelPml4 }
        space := update st.space r (some (emptyTable x.2)) }
      (st.mapPage r trampolineVaddr st.trampoline false true .trampoline, some 0)

/-- `shm_handle_destroy`, for the handles of shared memory. -/
def destroyHandle (type : HandleType) (resource : Option Nat) : VmSt :=
  match type, resource with
  | .shm, some o => st.releaseHandle o
  | _, _ => st

/-- Change a handle table. -/
def setHandles (r : Nat) (t : HandleTable (Option Nat)) : VmSt :=
  { st with handles := update st.handles r t }

/-- The handles in some slots of a table go. -/
def destroyHandles (r : Nat) (slots : List Nat) : VmSt :=
  slots.foldl (fun st i =>
    match (st.handles r).entries i with
    | some he => st.destroyHandle he.type he.resource
    | none => st) st

/-- `HandleTable::clear`. -/
def clearHandles (r : Nat) : VmSt :=
  (st.destroyHandles r (List.range maxHandlesPerRealm)).setHandles r HandleTable.init

/-! ## Units -/

def maxUnits : Nat := 256

/-- What a unit is created with: the addresses of its stack and its thread-local block, their
sizes in pages, and the initial bytes of the block. -/
structure UnitSetup where
  heapStart : Nat
  stackBase : Nat
  stackPages : Nat
  kernelPages : Nat
  tlsBase : Nat
  tlsPages : Nat
  tlsData : List UInt8

/-- `request_pages_phys` with `memset`. -/
def requestZeroed (n : Nat) : VmSt × Nat :=
  let x := st.phys.requestPages n
  if x.2 = 0 then ({ st with phys := x.1 }, 0)
  else ({ st with phys := x.1.zero x.2 (n * pageSize) }, x.2)

/-- `map_range` of a unit's run in the address space of a realm: `n` pages from the `i`-th on. -/
def mapRun (r va pa u : Nat) (kind : RunKind) : Nat → Nat → VmSt → VmSt
  | 0, _, st => st
  | n + 1, i, st =>
    mapRun r va pa u kind n (i + 1)
      (st.mapPage r (va + i * pageSize) (pa + i * pageSize) true true (.run u kind i))

/-- `setup_tls_block`; without frames the unit has no block. -/
def setupTls (u r : Nat) (cfg : UnitSetup) : VmSt × Option FrameRun :=
  if cfg.tlsPages = 0 then (st, none)
  else
    let x := st.requestZeroed cfg.tlsPages
    if x.2 = 0 then (x.1, none)
    else
      let data := cfg.tlsData.take (cfg.tlsPages * pageSize)
      let st := { x.1 with phys := { x.1.phys with mem := x.1.phys.mem.storeBytes x.2 data } }
      (mapRun r cfg.tlsBase x.2 u .tls cfg.tlsPages 0 st, some ⟨x.2, cfg.tlsPages⟩)

/-- `UnitManager::create` for a user unit. If there is no kernel stack, the frames of the user
stack are given back and stay mapped. -/
def createUnit (u r : Nat) (cfg : UnitSetup) : VmSt × Option Int :=
  if u ≥ maxUnits ∨ (st.unit u).isSome ∨ (st.space r).isNone then (st, some Error.again.toErrno)
  else
    let x := st.requestZeroed cfg.stackPages
    if x.2 = 0 then (x.1, some Error.noMem.toErrno)
    else
      let y := (mapRun r cfg.stackBase x.2 u .userStack cfg.stackPages 0 x.1).requestZeroed
        cfg.kernelPages
      if y.2 = 0 then
        ({ y.1 with phys := y.1.phys.freePages x.2 cfg.stackPages }, some Error.noMem.toErrno)
      else
        let z := y.1.setupTls u r cfg
        (z.1.setUnit u ⟨r, true, cfg.heapStart, cfg.heapStart, [], ⟨y.2, cfg.kernelPages⟩,
          some ⟨x.2, cfg.stackPages⟩, z.2⟩, some 0)

/-- The frames of a run are given back. -/
def freeRun : Option FrameRun → VmSt
  | none => st
  | some f => { st with phys := st.phys.freePages f.phys f.pages }

def releaseResources (u : Nat) : VmSt :=
  match st.unit u with
  | none => st
  | some x =>
    { ((st.freeRun (some x.stack)).freeRun x.tls).freeRun x.userStack with
      unit := update st.unit u none }

@[simp] theorem freeRun_unit {st : VmSt} {f : Option FrameRun} : (st.freeRun f).unit = st.unit := by
  cases f <;> rfl

theorem sameTables_freeRun (f : Option FrameRun) : SameTables st (st.freeRun f) := by
  cases f <;> exact ⟨rfl, rfl, rfl, rfl, rfl⟩

/-- The units of a realm end. -/
def destroyUnits (r : Nat) (us : List Nat) : VmSt :=
  us.foldl (fun st u =>
    if (st.unit u).any fun x => x.realm = r then st.releaseResources u else st) st

/-- `AddressSpace::destroy`. -/
def destroySpace (r : Nat) : VmSt :=
  match st.space r with
  | none => st
  | some pt => { st with
      phys := pt.destroyUserspace st.phys
      space := update st.space r none }

/-- `RealmManager::destroy`: the units of the realm and then its address space. -/
def destroyRealm (r : Nat) : VmSt :=
  ((st.destroyUnits r (List.range maxUnits)).destroySpace r).clearHandles r

/-! ## Accesses -/

/-- The first address of the kernel half. -/
def userEnd : Nat := 0x0000800000000000

/-- The entry that an access of a realm to a user address uses. -/
def userEntry (r va : Nat) : Option Pte :=
  if va < userEnd then
    match (st.space r).bind fun pt => pt.entry va with
    | some e => if e.present then some e else none
    | none => none
  else none

/-- A user access needs an address space with a present entry. -/
theorem userEntry_some {st : VmSt} {r va : Nat} {e : Pte} (h : st.userEntry r va = some e) :
    ∃ pt, st.space r = some pt ∧ pt.entry va = some e ∧ e.present := by
  unfold userEntry at h
  split_ifs at h
  split at h
  · rename_i e' he'
    split_ifs at h with hpresent
    cases h
    obtain ⟨pt, hpt, hentry⟩ := Option.bind_eq_some_iff.mp he'
    exact ⟨pt, hpt, hentry, hpresent⟩
  · cases h

/-- The byte that a unit of a realm reads, if it can. -/
def load (r va : Nat) : Option UInt8 :=
  (st.userEntry r va).map fun e => st.phys.mem (e.frame + va % pageSize)

/-- A unit of a realm writes a byte. -/
def store (r va : Nat) (b : UInt8) : VmSt :=
  match st.userEntry r va with
  | some e =>
    if e.writable then
      { st with
        phys := { st.phys with mem := st.phys.mem.set (e.frame + va % pageSize) b }
        space := update st.space r ((st.space r).map fun pt => pt.markWritten va) }
    else st
  | none => st

/-! ## The kernel's own frames -/

/-- The kernel takes frames. -/
def kernelTake (n : Nat) : VmSt × Option Int :=
  let x := st.phys.requestPages n
  if x.2 = 0 then ({ st with phys := x.1 }, some Error.noMem.toErrno)
  else ({ st with phys := x.1, kernelFrames := (FrameRun.mk x.2 n).frames ++ st.kernelFrames },
    some 0)

/-- The kernel gives back a frame that it has. -/
def kernelGive (f : Nat) : VmSt :=
  if f ∈ st.kernelFrames then
    { st.freePage f with kernelFrames := st.kernelFrames.filter fun g => g ≠ f }
  else st

/-- The frames of the units' kernel stacks. -/
def stackFrames : List Nat :=
  (List.range maxUnits).flatMap fun u => ((st.unit u).map fun x => x.stack.frames).getD []

/-- The kernel writes to a frame that it has, or to a stack. -/
def kernelStore (f off : Nat) (b : UInt8) : VmSt :=
  if (f ∈ st.kernelFrames ∨ f ∈ st.stackFrames) ∧ off < pageSize then
    { st with phys := { st.phys with mem := st.phys.mem.set (f + off) b } }
  else st

end VmSt

/-! ## Handles and files -/

namespace VmSt

variable (st : VmSt)

/-- `shm_handle_acquire`, for the handles of shared memory. -/
def acquire (type : HandleType) (resource : Option Nat) : VmSt :=
  match type, resource with
  | .shm, some o => st.acquireHandle o
  | _, _ => st

/-- A handle comes into a table; one for shared memory counts. -/
def addHandle (r : Nat) (hid : UInt64) (type : HandleType) (resource : Option Nat) :
    VmSt × Option Int :=
  match (st.handles r).addAt hid type resource 3 true with
  | .error e => (st, some e.toErrno)
  | .ok t => ((st.acquire type resource).setHandles r t, some 0)

/-- `shm_open` of a name that does not exist yet. -/
def shmCreate (r : Nat) (hid : UInt64) : VmSt × Option Int :=
  let x := st.newShm
  match (x.1.handles r).addAt hid .shm (some x.2) 3 true with
  | .error _ => (x.1.releaseHandle x.2, some Error.noMem.toErrno)
  | .ok t => (x.1.setHandles r t, some 0)

/-- `HandleTable::release`. -/
def closeHandle (r : Nat) (hid : UInt64) : VmSt :=
  let x := (st.handles r).release hid
  let st := match ((st.handles r).lookup hid).map HandleEntry.type, x.2 with
    | some type, some resource => st.destroyHandle type resource
    | _, _ => st
  st.setHandles r x.1

def shmTruncate (r : Nat) (hid : UInt64) (length : Nat) (ok : Bool) : VmSt × Option Int :=
  match (st.handles r).lookup hid with
  | none => (st, some Error.badH.toErrno)
  | some he =>
    if he.type ≠ .shm then (st, some Error.inval.toErrno)
    else match he.resource.bind fun o => (st.obj o).map fun b => (o, b) with
      | none => (st, some Error.inval.toErrno)
      | some (o, b) => st.resize o b length ok

/-- `VFS::write` to a file; `size` is what the driver leaves in the node. -/
def writeNode (node offset : Nat) (data : List UInt8) (size : Nat) : VmSt :=
  { st with
    content := update st.content (st.fileOf node)
      (writeFile (st.content (st.fileOf node)) offset data)
    node := update st.node node { st.node node with size := size } }

/-! ## What is left alone -/

section Calls

variable {R : VmSt → VmSt → Prop} {st} {r u n i : Nat} {hid : UInt64} {type : HandleType}
  {resource : Option Nat} {cfg : UnitSetup}

section

variable (hR : Allows R)

include hR

/-- Only a handle on a shared memory object holds a reference to it. -/
theorem Allows.destroyHandle : R st (st.destroyHandle type resource) := by
  unfold VmSt.destroyHandle
  split
  · exact hR.releaseHandle
  · exact hR.refl

/-- Every slot of a realm that goes, in order. -/
theorem Allows.destroyHandles {slots : List Nat} : R st (st.destroyHandles r slots) := by
  unfold VmSt.destroyHandles
  induction slots generalizing st with
  | nil => exact hR.refl
  | cons i slots ih =>
    rw [List.foldl_cons]
    refine hR.trans ?_ ih
    split
    · exact hR.destroyHandle
    · exact hR.refl

/-- The pages of a run are mapped in order. -/
theorem Allows.mapRun {va pa : Nat} {kind : RunKind} (hmap : ∀ {st j}, j < i + n →
      R st (st.mapPage r (va + j * pageSize) (pa + j * pageSize) true true (.run u kind j))) :
    R st (mapRun r va pa u kind n i st) := by
  induction n generalizing st i with
  | zero => exact hR.refl
  | succ n ih => exact hR.trans (hmap (by omega)) (ih fun hj => hmap (by omega))

theorem Allows.acquire : R st (st.acquire type resource) := by
  unfold VmSt.acquire VmSt.acquireHandle
  split
  · split
    · exact hR.refl
    · rename_i hb
      exact hR.setObj hb rfl
  · exact hR.refl

/-- A handle that names no object changes nothing. -/
theorem Allows.shmTruncate {length : Nat} {ok : Bool} :
    R st (st.shmTruncate r hid length ok).1 := by
  unfold VmSt.shmTruncate
  split
  · exact hR.refl
  split
  · exact hR.refl
  split
  · exact hR.refl
  rename_i o b hob
  obtain ⟨o', -, hb'⟩ := Option.bind_eq_some_iff.mp hob
  obtain ⟨b', hb', heq⟩ := Option.map_eq_some_iff.mp hb'
  cases heq
  exact hR.resize hb'

end

/-- A relation that also allows any change of frames and of handle tables, and new objects. -/
structure AllowsCalls (R : VmSt → VmSt → Prop) : Prop extends Allows R where
  phys : ∀ {st ph fs}, R st { st with phys := ph, kernelFrames := fs }
  setHandles : ∀ {st r t}, R st (st.setHandles r t)
  newShm : ∀ {st}, R st st.newShm.1

variable (hR : AllowsCalls R)

include hR

/-- Frames alone. -/
theorem AllowsCalls.requestZeroed : R st (st.requestZeroed n).1 := by
  unfold VmSt.requestZeroed
  dsimp only
  split <;> exact hR.phys

/-- The pages of a run may be mapped. -/
theorem AllowsCalls.setupTls (hmap : ∀ {st pa j}, j < cfg.tlsPages → R st (st.mapPage r
      (cfg.tlsBase + j * pageSize) (pa + j * pageSize) true true (.run u .tls j))) :
    R st (st.setupTls u r cfg).1 := by
  unfold VmSt.setupTls
  split
  · exact hR.refl
  dsimp only
  split
  · exact hR.requestZeroed
  · refine hR.trans (hR.trans hR.requestZeroed hR.phys) (hR.mapRun fun hj => hmap ?_)
    rwa [Nat.zero_add] at hj

/-- The stack, the kernel stack, the TLS block, then the unit, which has no areas yet. -/
theorem AllowsCalls.createUnit (hstack : ∀ {st pa j}, j < cfg.stackPages → R st (st.mapPage r
      (cfg.stackBase + j * pageSize) (pa + j * pageSize) true true (.run u .userStack j)))
    (htls : ∀ {st pa j}, j < cfg.tlsPages → R st (st.mapPage r (cfg.tlsBase + j * pageSize)
      (pa + j * pageSize) true true (.run u .tls j)))
    (hset : ∀ {st x}, x.vmas = [] → R st (st.setUnit u x)) : R st (st.createUnit u r cfg).1 := by
  unfold VmSt.createUnit
  split
  · exact hR.refl
  dsimp only
  split
  · exact hR.requestZeroed
  have hmapped : ∀ pa, R st ((mapRun r cfg.stackBase pa u .userStack cfg.stackPages 0
      (st.requestZeroed cfg.stackPages).1).requestZeroed cfg.kernelPages).1 := by
    intro pa
    refine hR.trans (hR.trans hR.requestZeroed (hR.mapRun fun hj => hstack ?_)) hR.requestZeroed
    rwa [Nat.zero_add] at hj
  split
  · exact hR.trans (hmapped _) hR.phys
  · exact hR.trans (hmapped _) (hR.trans (hR.setupTls htls) (hset rfl))

theorem AllowsCalls.addHandle : R st (st.addHandle r hid type resource).1 := by
  unfold VmSt.addHandle
  split
  · exact hR.refl
  · exact hR.trans hR.acquire hR.setHandles

/-- An object that no handle slot takes is released again. -/
theorem AllowsCalls.shmCreate : R st (st.shmCreate r hid).1 := by
  unfold VmSt.shmCreate
  dsimp only
  split
  · exact hR.trans hR.newShm hR.releaseHandle
  · exact hR.trans hR.newShm hR.setHandles

/-- The object is released before the slot is cleared. -/
theorem AllowsCalls.closeHandle : R st (st.closeHandle r hid) := by
  refine hR.trans ?_ hR.setHandles
  split
  · exact hR.destroyHandle
  · exact hR.refl

theorem AllowsCalls.clearHandles : R st (st.clearHandles r) :=
  hR.trans hR.destroyHandles hR.setHandles

theorem AllowsCalls.kernelTake : R st (st.kernelTake n).1 := by
  unfold VmSt.kernelTake
  dsimp only
  split <;> exact hR.phys

/-- Only a frame that the kernel holds. -/
theorem AllowsCalls.kernelGive {f : Nat} : R st (st.kernelGive f) := by
  unfold VmSt.kernelGive
  split
  · exact hR.phys
  · exact hR.refl

theorem AllowsCalls.kernelStore {f off : Nat} {b : UInt8} : R st (st.kernelStore f off b) := by
  unfold VmSt.kernelStore
  split
  · exact hR.phys
  · exact hR.refl

end Calls

/-- Units are changed by the calls on them only. -/
theorem calls_unit : AllowsCalls fun st st' => st'.unit = st.unit := ⟨allows_unit, rfl, rfl, rfl⟩

@[simp] theorem mapRun_unit (r va pa u : Nat) (kind : RunKind) (n i : Nat) :
    (mapRun r va pa u kind n i st).unit = st.unit := allows_unit.mapRun fun _ => mapPage_unit _

end VmSt

/-! ## Steps -/

/-- The steps. -/
inductive VmAction where
  | createRealm (r : Nat)
  | createUnit (u r : Nat) (cfg : VmSt.UnitSetup)
  | addHandle (r : Nat) (hid : UInt64) (type : HandleType) (resource : Option Nat)
  | closeHandle (r : Nat) (hid : UInt64)
  | shmCreate (r : Nat) (hid : UInt64)
  | shmUnlink (o : Nat)
  | shmTruncate (r : Nat) (hid : UInt64) (length : Nat) (ok : Bool)
  | mmap (u addr length prot flags : Nat) (handle : UInt64) (offset : Nat) (vmaOk : Bool)
  | brk (u addr : Nat)
  | munmap (u addr length : Nat) (vmaOk : Bool)
  | mprotect (u addr length prot room : Nat)
  | store (u va : Nat) (b : UInt8)
  | writeNode (node offset : Nat) (data : List UInt8) (size : Nat)
  | exitUnit (u : Nat)
  | exitRealm (r : Nat)
  | kernelTake (n : Nat)
  | kernelGive (f : Nat)
  | kernelStore (f off : Nat) (b : UInt8)

/-- One step, and what the call returns; `none` if it does not return. -/
def vmStep (st : VmSt) : VmAction → VmSt × Option Int
  | .createRealm r => st.createRealm r
  | .createUnit u r cfg => st.createUnit u r cfg
  | .addHandle r hid type resource => st.addHandle r hid type resource
  | .closeHandle r hid => (st.closeHandle r hid, some 0)
  | .shmCreate r hid => st.shmCreate r hid
  | .shmUnlink o => (st.markUnlinked o, some 0)
  | .shmTruncate r hid length ok => st.shmTruncate r hid length ok
  | .mmap u addr length prot flags handle offset vmaOk =>
    st.mmap u addr length prot flags handle offset vmaOk
  | .brk u addr => st.brk u addr
  | .munmap u addr length vmaOk => st.munmap u addr length vmaOk
  | .mprotect u addr length prot room => st.mprotect u addr length prot room
  | .store u va b => (((st.unit u).map fun x => st.store x.realm va b).getD st, some 0)
  | .writeNode node offset data size => (st.writeNode node offset data size, some 0)
  | .exitUnit u => (st.releaseResources u, some 0)
  | .exitRealm r => (st.destroyRealm r, some 0)
  | .kernelTake n => st.kernelTake n
  | .kernelGive f => (st.kernelGive f, some 0)
  | .kernelStore f off b => (st.kernelStore f off b, some 0)

/-- Before the first realm: no address space and no unit. Frames are page addresses, and objects
were numbered in order. -/
structure VmSt.Booted (st : VmSt) : Prop where
  space : ∀ r, st.space r = none
  unit : ∀ u, st.unit u = none
  trampoline : frameOf st.trampoline = st.trampoline
  kernel : ∀ f ∈ st.kernelFrames, frameOf f = f
  pages : ∀ o b, st.obj o = some b → ∀ f ∈ b.pages, frameOf f = f
  objects : ∀ o b, st.obj o = some b → o < st.nextObj

/-! ## A small machine -/

namespace VmSt

/-- A machine with 64 frames, the first eight of them in use: the trampoline and the kernel's PML4
are among these. -/
def smallMachine : VmSt where
  phys := ⟨⟨fun i => decide (i < 8), 64, 8⟩, fun _ => 0, false⟩
  kernelPml4 := 0x2000
  trampoline := 0x1000
  space := fun _ => none
  obj := fun _ => none
  kernelFrames := []
  unit := fun _ => none
  handles := fun _ => HandleTable.init
  node := fun _ => ⟨0, 0, 0⟩
  content := fun _ => []
  deviceObject := fun _ _ => none
  nextObj := 0
  fileTable := []
  mappings := 0

/-- A unit with one page for either stack. -/
def smallUnit : UnitSetup := ⟨0x400000, 0x7ffe0000, 1, 1, 0, 0, []⟩

/-- A machine with frames and nothing else. -/
theorem smallMachine_booted : smallMachine.Booted where
  space _ := rfl
  unit _ := rfl
  trampoline := by decide
  kernel _ h := nomatch h
  pages _ _ h := nomatch h
  objects _ _ h := nomatch h

end VmSt

end Vespera.Memory
