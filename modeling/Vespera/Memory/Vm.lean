import Vespera.Memory.PageTable
import Vespera.Realm.HandleTable
import Vespera.Vfs.FileData

/-! # Virtual memory

`mmap`, `brk`, `munmap` and `mprotect` of `kernel/memory/vm.cpp` with the backing objects of
`file_backing.cpp` and `shm.cpp`.

Every state has one page table for a realm and one list of areas for a unit, as the source
has. The calls are atomic. The kernel heap has room, except for the areas that a call has to
make: how many of those it gets is an argument. Addresses in the kernel half are mapped in the
realm's own table, where the source would write to tables that all realms share.

`find_free_range` may run for ever; a call that does not return has no answer.
-/

namespace Vespera.Memory

open Klib Function Realms Vfs

/-! ## Areas, objects, units -/

structure VmArea where
  start : Nat
  length : Nat
  prot : Nat
  flags : Nat
  fileOff : Nat
  handle : UInt64
  backing : Option Nat
deriving DecidableEq

/-- `vma->start + vma->length`. -/
def VmArea.end (v : VmArea) : Nat := (v.start + v.length) % 2 ^ 64

/-- The part `[a, b)` of an area, in 64-bit arithmetic. -/
def VmArea.part (v : VmArea) (a b : Nat) : VmArea :=
  { v with
    start := a
    length := (b + (2 ^ 64 - a)) % 2 ^ 64
    fileOff := (v.fileOff + (a - v.start)) % 2 ^ 64 }

def mapAnonymous (flags : Nat) : Bool := flags.testBit 5
def mapShared (flags : Nat) : Bool := flags.testBit 0
def protWrite (prot : Nat) : Bool := prot.testBit 1

/-- The fields of `VfsNode` that mappings use. -/
structure FileNode where
  mount : Nat
  inodeId : Nat
  size : Nat

/-- Which file a node stands for. Nodes without an inode number are files of their own. -/
inductive FileId where
  | inode (mount inodeId : Nat)
  | node (id : Nat)
deriving DecidableEq

/-- The kinds of `VmBackingObject`. A driver's object has its frames from the start. -/
inductive BackingKind where
  | shm
  | file (node : Nat)
  | device
deriving DecidableEq

/-- `n++` of a 32-bit count. -/
def succ32 (n : Nat) : Nat := (n + 1) % 2 ^ 32

/-- `n--` of a 32-bit count. -/
def pred32 (n : Nat) : Nat := (n + (2 ^ 32 - 1)) % 2 ^ 32

/-- A `VmBackingObject`: `pages_`, where 0 is a page that is not there yet, and the counts. -/
structure Backing where
  kind : BackingKind
  size : Nat
  pages : List Nat
  mappingCount : Nat
  handleCount : Nat
  unlinked : Bool

/-- A stretch of frames that a unit keeps for itself. -/
structure FrameRun where
  phys : Nat
  pages : Nat

/-- The frames of a run. -/
def FrameRun.frames (f : FrameRun) : List Nat :=
  (List.range f.pages).map fun i => f.phys + i * pageSize

/-- The fields of `Unit` that memory calls use. -/
structure VmUnit where
  realm : Nat
  isUser : Bool
  heapStart : Nat
  heapEnd : Nat
  vmas : List VmArea
  stack : FrameRun
  userStack : Option FrameRun
  tls : Option FrameRun

/-- The runs of a unit. -/
def VmUnit.run (x : VmUnit) : RunKind → Option FrameRun
  | .stack => some x.stack
  | .userStack => x.userStack
  | .tls => x.tls

/-- An entry of `g_file_backing_table`. -/
structure FileTableEntry where
  mount : Nat
  inodeId : Nat
  obj : Nat

/-- The state. `kernelFrames` are the frames that the kernel has taken for itself and writes to,
`content` are the files, and `deviceObject` is what `get_backing_object` of a driver answers.
`mappings` counts the `mmap` calls, so that the pages of one mapping can be told from those of
another. -/
structure VmSt where
  phys : Phys
  kernelPml4 : Nat
  trampoline : Nat
  space : Nat → Option PageTable
  obj : Nat → Option Backing
  kernelFrames : List Nat
  unit : Nat → Option VmUnit
  handles : Nat → HandleTable (Option Nat)
  node : Nat → FileNode
  content : FileId → List UInt8
  deviceObject : Nat → Nat → Option Nat
  nextObj : Nat
  fileTable : List FileTableEntry
  mappings : Nat

namespace VmSt

/-! ## Single pages -/

variable (st : VmSt)

/-- `map_memory` in the address space of a realm. -/
def mapPage (r va pa : Nat) (writable present : Bool) (origin : Origin) : VmSt :=
  match st.space r with
  | none => st
  | some pt =>
    let x := PageTable.mapMemory st.phys pt va pa writable present origin
    { st with phys := x.1, space := update st.space r (some x.2) }

/-- `unmap_memory` in the address space of a realm. -/
def unmapPage (r va : Nat) : VmSt :=
  match st.space r with
  | none => st
  | some pt =>
    let x := PageTable.unmapMemory st.phys pt va
    { st with phys := x.1, space := update st.space r (some x.2) }

/-- `request_page_phys`. -/
def requestPage : VmSt × Nat :=
  ({ st with phys := st.phys.requestPage.1 }, st.phys.requestPage.2)

/-- `free_page_phys`. -/
def freePage (addr : Nat) : VmSt := { st with phys := st.phys.freePage addr }

/-- `memset` of a frame. -/
def zeroPage (f : Nat) : VmSt := { st with phys := st.phys.zero f pageSize }

/-- The physical address of a realm's address, 0 if it is not mapped. -/
def physicalAddress (r va : Nat) : Nat :=
  ((st.space r).map fun pt => pt.getPhysicalAddress va).getD 0

/-- The same for pages that are not present. -/
def physicalAddressIgnorePresent (r va : Nat) : Nat :=
  ((st.space r).map fun pt => pt.getPhysicalAddressIgnorePresent va).getD 0

/-- How a realm's page came to be mapped. -/
def originOf (r va : Nat) : Origin :=
  (((st.space r).bind fun pt => pt.entry va).map Pte.origin).getD .anon

/-- Unmap `n` pages from `va` on. -/
def unmapPages (st : VmSt) (r va : Nat) : Nat → VmSt
  | 0 => st
  | n + 1 => (st.unmapPage r va).unmapPages r (va + pageSize) n

/-- The loops of `munmap` and of a shrinking `brk`: unmap what is mapped, and give the frames
back if they are the caller's to give. -/
def unmapRange (st : VmSt) (r va : Nat) (free : Bool) : Nat → VmSt
  | 0 => st
  | n + 1 =>
    let phys := st.physicalAddress r va
    let st :=
      if phys = 0 then st
      else if free then (st.unmapPage r va).freePage phys
      else st.unmapPage r va
    st.unmapRange r (va + pageSize) free n

/-! ## Backing objects -/

/-- The file of a node. -/
def fileOf (node : Nat) : FileId :=
  if (st.node node).inodeId = 0 then .node node
  else .inode (st.node node).mount (st.node node).inodeId

/-- Change an object. -/
def setObj (o : Nat) (b : Option Backing) : VmSt :=
  { st with obj := update st.obj o b }

/-- `new FileBackingObject(node)`. -/
def newFileObject (node : Nat) : VmSt × Nat :=
  let size := (st.node node).size
  let b : Backing :=
    ⟨.file node, size, List.replicate ((size + pageSize - 1) / pageSize) 0, 0, 0, false⟩
  ({ st.setObj st.nextObj (some b) with nextObj := st.nextObj + 1 }, st.nextObj)

def fileBackingTableSize : Nat := 256

def getOrCreate (node : Nat) : VmSt × Option Nat :=
  let nd := st.node node
  if nd.inodeId = 0 then
    let r := st.newFileObject node
    (r.1, some r.2)
  else
    match st.fileTable.find? fun e => e.mount = nd.mount ∧ e.inodeId = nd.inodeId with
    | some e => (st, some e.obj)
    | none =>
      if st.fileTable.length ≥ fileBackingTableSize then (st, none)
      else
        let r := st.newFileObject node
        ({ r.1 with fileTable := ⟨nd.mount, nd.inodeId, r.2⟩ :: r.1.fileTable }, some r.2)

/-- What `get_page` puts into a new page of an object: the bytes of the file, or nothing. -/
def pageData (b : Backing) (offset : Nat) : List UInt8 :=
  match b.kind with
  | .file node =>
    if offset < b.size ∧ offset < (st.content (st.fileOf node)).length then
      fileBytes (st.content (st.fileOf node)) offset (min pageSize (b.size - offset))
    else []
  | _ => []

/-- Clear a frame and put data at its start. -/
def fillPage (f : Nat) (data : List UInt8) : VmSt :=
  { st with phys := { st.phys with mem := (st.phys.mem.fill f 0 pageSize).storeBytes f data } }

/-- `get_page` of an object: the frame, 0 if there is none. -/
def getPage (o offset : Nat) : VmSt × Nat :=
  match st.obj o with
  | none => (st, 0)
  | some b =>
    let i := offset / pageSize
    if i ≥ b.pages.length then (st, 0)
    else if b.pages.getD i 0 ≠ 0 then (st, b.pages.getD i 0)
    else if b.kind = .device then (st, 0)
    else
      let r := st.requestPage
      if r.2 = 0 then r
      else
        let st := r.1.fillPage r.2 (st.pageData b offset)
        (st.setObj o (some { b with pages := b.pages.set i r.2 }), r.2)

def addMapping (o : Nat) : VmSt :=
  match st.obj o with
  | none => st
  | some b => st.setObj o (some { b with mappingCount := succ32 b.mappingCount })

/-- The frames of an object are given back. -/
def freeObjectPages (pages : List Nat) : VmSt :=
  pages.foldl (fun st f => if f = 0 then st else st.freePage f) st

/-- `delete` of an object. -/
def destroyObject (o : Nat) (b : Backing) : VmSt :=
  let st := st.freeObjectPages b.pages
  { st.setObj o none with fileTable := st.fileTable.filter fun e => e.obj ≠ o }

/-- `remove_mapping`, with `check_and_destroy`. -/
def removeMapping (o : Nat) : VmSt :=
  match st.obj o with
  | none => st
  | some b =>
    match b.kind with
    | .file _ =>
      let b := { b with mappingCount := b.mappingCount - 1 }
      if b.mappingCount = 0 then st.destroyObject o b else st.setObj o (some b)
    | .shm =>
      let b := { b with mappingCount := pred32 b.mappingCount }
      if b.handleCount = 0 ∧ b.mappingCount = 0 ∧ b.unlinked then st.destroyObject o b
      else st.setObj o (some b)
    | .device => st.setObj o (some { b with mappingCount := b.mappingCount - 1 })

/-- `remove_mapping` of the object of an area, if it has one. -/
def dropBacking : Option Nat → VmSt
  | none => st
  | some o => st.removeMapping o

def releaseHandle (o : Nat) : VmSt :=
  match st.obj o with
  | none => st
  | some b =>
    let b := { b with handleCount := pred32 b.handleCount }
    if b.handleCount = 0 ∧ b.mappingCount = 0 ∧ b.unlinked then st.destroyObject o b
    else st.setObj o (some b)

/-- `ShmObject::create`, with one handle and no pages. -/
def newShm : VmSt × Nat :=
  ({ st.setObj st.nextObj (some ⟨.shm, 0, [], 0, 1, false⟩) with nextObj := st.nextObj + 1 },
    st.nextObj)

def acquireHandle (o : Nat) : VmSt :=
  match st.obj o with
  | none => st
  | some b => st.setObj o (some { b with handleCount := succ32 b.handleCount })

def markUnlinked (o : Nat) : VmSt :=
  match st.obj o with
  | none => st
  | some b => st.setObj o (some { b with unlinked := true })

/-- `ShmObject::resize`; `ok` if there is room for the new list of pages. -/
def resize (o : Nat) (b : Backing) (newSize : Nat) (ok : Bool) : VmSt × Option Int :=
  let newCount := (newSize + pageSize - 1) % 2 ^ 64 / pageSize
  if newCount = b.pages.length then (st.setObj o (some { b with size := newSize }), some 0)
  else if newCount = 0 then
    ((st.freeObjectPages b.pages).setObj o (some { b with size := 0, pages := [] }), some 0)
  else if ok then
    let pages := b.pages.take newCount ++ List.replicate (newCount - b.pages.length) 0
    ((st.freeObjectPages (b.pages.drop newCount)).setObj o
      (some { b with size := newSize, pages := pages }), some 0)
  else (st, some Error.noMem.toErrno)

/-! ## mmap -/

/-- Change a unit. -/
def setUnit (u : Nat) (x : VmUnit) : VmSt :=
  { st with unit := update st.unit u (some x) }

def mmapBase : Nat := 0x0000600000000000

def mmapEnd : Nat := 0x00007FFFFF000000

def userHeapMax : Nat := 0x00007FFE00000000

/-- `x & ~(PAGE_SIZE - 1)`. -/
def alignDown (x : Nat) : Nat := x / pageSize * pageSize

/-- `(x + PAGE_SIZE - 1) & ~(PAGE_SIZE - 1)`. -/
def alignUp (x : Nat) : Nat := alignDown ((x + pageSize - 1) % 2 ^ 64)

theorem alignDown_dvd {n : Nat} : pageSize ∣ alignDown n := Nat.dvd_mul_left _ _

theorem alignUp_dvd (n : Nat) : pageSize ∣ alignUp n := alignDown_dvd

/-- The lowest start of an area from `current` on, below `MMAP_END`. -/
def nextStart (vmas : List VmArea) (current : Nat) : Nat :=
  vmas.foldl (fun best v => if v.start ≥ current ∧ v.start < best then v.start else best) mmapEnd

/-- The loop of `find_free_range`; `none` if it is still running after `fuel` rounds. -/
def findFreeRange (vmas : List VmArea) (length : Nat) : Nat → Nat → Option Nat
  | 0, _ => none
  | fuel + 1, current =>
    let start := nextStart vmas current
    if (current + length) % 2 ^ 64 ≤ start then
      if (current + length) % 2 ^ 64 ≤ mmapEnd then some current else some 0
    else
      let current := match vmas.find? fun v => v.start = start with
        | some v => alignUp ((start + v.length) % 2 ^ 64)
        | none => current
      if current ≥ mmapEnd then some 0 else findFreeRange vmas length fuel current

/-- The object behind a handle. -/
def handleObject (he : HandleEntry (Option Nat)) (offset : Nat) : VmSt × Option Nat :=
  match he.type, he.resource with
  | .shm, some o => (st, some o)
  | .file, some node => st.getOrCreate node
  | .device, some d => (st, st.deviceObject d offset)
  | _, _ => (st, none)

/-- The object that a mapping is made of, or the error; and the offset into it. -/
def resolveBacking (realm : Nat) (handle : UInt64) (length offset : Nat) :
    VmSt × Except Error (Nat × Nat) :=
  match (st.handles realm).lookup handle with
  | none => (st, .error .badH)
  | some he =>
    let device := he.type = .device
    let r := st.handleObject he offset
    match r.2.bind fun o => (r.1.obj o).map fun b => (o, b) with
    | none => (r.1, .error .badH)
    | some (o, b) =>
      let backingSize := alignUp b.size
      if (if device then length else (offset + length) % 2 ^ 64) > backingSize then
        (r.1, .error .inval)
      else (r.1.addMapping o, .ok (o, if device then 0 else offset))

/-- What is mapped: nothing but memory, or an object from an offset on. -/
inductive Source where
  | anonymous
  | object (o offset : Nat)

/-- The frame for the `i`-th page. -/
def sourcePage (i : Nat) : Source → VmSt × Nat
  | .anonymous => st.requestPage
  | .object o offset => st.getPage o ((offset + i * pageSize) % 2 ^ 64)

/-- How the `i`-th page is mapped. -/
def sourceOrigin (shared : Bool) (i : Nat) : Source → Origin
  | .anonymous => .fresh
  | .object o offset => .object st.mappings shared o ((offset + i * pageSize) % 2 ^ 64 / pageSize)

/-- The loop of `mmap` over `n` more pages from the `i`-th on. If a frame is missing, the pages
mapped so far are unmapped. -/
def mmapLoop (r base : Nat) (writable shared : Bool) (src : Source) :
    Nat → Nat → VmSt → VmSt × Bool
  | 0, _, st => (st, true)
  | n + 1, i, st =>
    let x := st.sourcePage i src
    if x.2 = 0 then (x.1.unmapPages r base i, false)
    else
      mmapLoop r base writable shared src n (i + 1)
        (x.1.mapPage r (base + i * pageSize) x.2 writable true (x.1.sourceOrigin shared i src))

/-- The object of a source. -/
def Source.backing : Source → Option Nat
  | .anonymous => none
  | .object o _ => some o

/-- The end of `mmap`, once the source is known. -/
def mmapAt (u : Nat) (x : VmUnit) (base length prot flags : Nat) (handle : UInt64)
    (offset : Nat) (src : Source) (vmaOk : Bool) : VmSt × Option Int :=
  let npages := length / pageSize
  let r := mmapLoop x.realm base (protWrite prot) (mapShared flags) src npages 0 st
  if r.2 then
    if vmaOk then
      let area : VmArea := ⟨base, length, prot, flags, offset, handle, src.backing⟩
      ({ r.1.setUnit u { x with vmas := area :: x.vmas } with mappings := st.mappings + 1 },
        some base)
    else
      ((r.1.unmapPages x.realm base npages).dropBacking src.backing, some Error.noMem.toErrno)
  else (r.1.dropBacking src.backing, some Error.noMem.toErrno)

/-- `mmap`; `vmaOk` if there is room for the area. -/
def mmap (u addr length prot flags : Nat) (handle : UInt64) (offset : Nat)
    (vmaOk : Bool) : VmSt × Option Int :=
  if length = 0 then (st, some Error.inval.toErrno)
  else match st.unit u with
    | none => (st, some Error.acces.toErrno)
    | some x =>
      if ¬ x.isUser then (st, some Error.acces.toErrno)
      else
        let addr := alignDown addr
        let length := alignUp length
        match (if addr ≠ 0 then some addr
            else findFreeRange x.vmas length (x.vmas.length + 1) mmapBase) with
        | none => (st, none)
        | some base =>
          if base = 0 then (st, some Error.noMem.toErrno)
          else if mapAnonymous flags then
            st.mmapAt u x base length prot flags handle offset .anonymous vmaOk
          else
            let b := st.resolveBacking x.realm handle length offset
            match b.2 with
            | .error e => (b.1, some e.toErrno)
            | .ok (o, pageOffset) =>
              b.1.mmapAt u x base length prot flags handle offset (.object o pageOffset) vmaOk

/-! ## brk -/

/-- `find_vma(addr, 0)` followed by a change of the area that was found. -/
def updateArea (addr : Nat) (f : VmArea → List VmArea) : List VmArea → Option (List VmArea)
  | [] => none
  | v :: vs =>
    if addr ≥ v.start ∧ addr ≤ v.end then some (f v ++ vs)
    else (updateArea addr f vs).map (v :: ·)

/-- The loop of a growing `brk`: `false` if a frame was missing. -/
def growLoop (r : Nat) : Nat → Nat → VmSt → VmSt × Bool
  | 0, _, st => (st, true)
  | n + 1, a, st =>
    let x := st.requestPage
    if x.2 = 0 then (x.1, false)
    else growLoop r n (a + pageSize) ((x.1.zeroPage x.2).mapPage r a x.2 true true .fresh)

/-- The area of a heap that has grown. -/
def growAreas (x : VmUnit) (addr : Nat) : List VmArea :=
  match updateArea x.heapEnd (fun v => [{ v with length := addr - v.start }]) x.vmas with
  | some vmas => vmas
  | none => ⟨x.heapEnd, addr - x.heapEnd, 0, 0, 0, 0, none⟩ :: x.vmas

/-- The area of a heap that has shrunk. -/
def shrinkAreas (x : VmUnit) (addr : Nat) : List VmArea :=
  (updateArea addr (fun v =>
    if addr - v.start = 0 then [] else [{ v with length := addr - v.start }]) x.vmas).getD x.vmas

def brk (u addr : Nat) : VmSt × Option Int :=
  match st.unit u with
  | none => (st, some Error.acces.toErrno)
  | some x =>
    if ¬ x.isUser then (st, some Error.acces.toErrno)
    else if x.heapStart = 0 then (st, some Error.inval.toErrno)
    else if addr = 0 then (st, some x.heapEnd)
    else if addr < x.heapStart then (st, some x.heapEnd)
    else if addr > userHeapMax then (st, some Error.noMem.toErrno)
    else if addr > x.heapEnd then
      let start := alignUp x.heapEnd
      let r := growLoop x.realm ((alignUp addr - start) / pageSize) start st
      if r.2 then (r.1.setUnit u { x with vmas := growAreas x addr, heapEnd := addr }, some addr)
      else (r.1, some Error.noMem.toErrno)
    else
      let start := alignUp addr
      let st := st.unmapRange x.realm start true ((alignUp x.heapEnd - start) / pageSize)
      (st.setUnit u { x with vmas := shrinkAreas x addr, heapEnd := addr }, some addr)

/-! ## munmap and mprotect -/

/-- One more mapping of an area's object, for a part that was cut off. -/
def shareBacking (v : VmArea) : VmSt :=
  match v.backing with
  | some o => if mapAnonymous v.flags then st else st.addMapping o
  | none => st

/-- The area that `munmap` has to cut in two is the first that goes on at both ends. -/
def markSplit (base stop : Nat) : List VmArea → List (VmArea × Bool)
  | [] => []
  | v :: vs =>
    if v.start < base ∧ v.end > stop then (v, true) :: vs.map fun w => (w, false)
    else (v, false) :: markSplit base stop vs

/-- The number of pages that a loop from `a` to `b` visits. -/
def pageSteps (a b : Nat) : Nat := (b - a + pageSize - 1) / pageSize

/-- What `munmap` does with one area: the areas that stay in its place, and the new area that
goes to the front. -/
def munmapArea (r base stop : Nat) (v : VmArea) (split : Bool) : VmSt × List VmArea × List VmArea :=
  if v.start ≥ stop ∨ v.end ≤ base then (st, [v], [])
  else
    let first := max v.start base
    let st := st.unmapRange r first (mapAnonymous v.flags) (pageSteps first (min v.end stop))
    if v.start ≥ base ∧ v.end ≤ stop then
      (if mapAnonymous v.flags then st else st.dropBacking v.backing, [], [])
    else if split then
      (st.shareBacking v, [{ v with length := base - v.start }], [v.part stop v.end])
    else if v.start ≥ base then (st, [v.part stop v.end], [])
    else (st, [{ v with length := base - v.start }], [])

/-- The loop of `munmap`: the areas that stay, with the new ones in front. -/
def munmapLoop (r base stop : Nat) : List (VmArea × Bool) → VmSt → VmSt × List VmArea × List VmArea
  | [], st => (st, [], [])
  | v :: vs, st =>
    let x := st.munmapArea r base stop v.1 v.2
    let y := munmapLoop r base stop vs x.1
    (y.1, x.2.1 ++ y.2.1, y.2.2 ++ x.2.2)

/-- `munmap`; `vmaOk` if there is room for one more area. -/
def munmap (u addr length : Nat) (vmaOk : Bool) : VmSt × Option Int :=
  match st.unit u with
  | none => (st, some Error.acces.toErrno)
  | some x =>
    if ¬ x.isUser then (st, some Error.acces.toErrno)
    else if length = 0 then (st, some Error.inval.toErrno)
    else
      let base := alignDown addr
      let stop := (base + alignUp length) % 2 ^ 64
      let areas := markSplit base stop x.vmas
      if (areas.any Prod.snd) ∧ ¬ vmaOk then (st, some Error.noMem.toErrno)
      else
        let y := munmapLoop x.realm base stop areas st
        (y.1.setUnit u { x with vmas := y.2.2 ++ y.2.1 }, some 0)

/-- The first pass of `mprotect`: is every address from `covered` to `stop` in an area? -/
def covers (vmas : List VmArea) (stop : Nat) : Nat → Nat → Bool
  | 0, _ => false
  | fuel + 1, covered =>
    if covered < stop then
      match vmas.find? fun v => v.start ≤ covered ∧ v.end > covered with
      | none => false
      | some v => covers vmas stop fuel v.end
    else true

/-- The loop of `mprotect` over the pages of an area. -/
def protectPages (r prot : Nat) : Nat → Nat → VmSt → VmSt
  | 0, _, st => st
  | n + 1, a, st =>
    let phys := st.physicalAddressIgnorePresent r a
    protectPages r prot n (a + pageSize)
      (if phys = 0 then st
        else st.mapPage r a phys (protWrite prot) (prot ≠ 0) (st.originOf r a))

/-- What `mprotect` makes of one area: the areas in its place, the new ones that go to the front,
how many areas can still be made, and whether there was room. -/
structure Protected where
  st : VmSt
  kept : List VmArea
  new : List VmArea
  room : Nat
  ok : Bool

/-- The part of `mprotect` for one area: the pages, then a tail with the old protection, then the
part before the range. -/
def protectArea (r base stop prot : Nat) (v : VmArea) (room : Nat) : Protected :=
  if v.start ≥ stop ∨ v.end ≤ base then ⟨st, [v], [], room, true⟩
  else
    let a := max v.start base
    let b := min v.end stop
    let st := protectPages r prot (pageSteps a b) a st
    if b < v.end then
      if room = 0 then ⟨st, [v], [], room, false⟩
      else protectHead (st.shareBacking v) prot v a b [v.part b v.end] (room - 1)
    else protectHead st prot v a b [] room
where
  /-- The part before the range, if there is one. -/
  protectHead (st : VmSt) (prot : Nat) (v : VmArea) (a b : Nat) (tails : List VmArea) (room : Nat) :
      Protected :=
    if a > v.start then
      if room = 0 then ⟨st, [v], tails, room, false⟩
      else ⟨st.shareBacking v, [{ v with length := a - v.start }],
        { v.part a b with prot := prot } :: tails, room - 1, true⟩
    else ⟨st, [{ v with length := b - v.start, prot := prot }], tails, room, true⟩

/-- The second pass of `mprotect`, over the areas in order: the areas that stay, the new ones, and
whether there was room for all of them. -/
def protectLoop (r base stop prot : Nat) :
    List VmArea → Nat → VmSt → VmSt × List VmArea × List VmArea × Bool
  | [], _, st => (st, [], [], true)
  | v :: vs, room, st =>
    let x := st.protectArea r base stop prot v room
    if x.ok then
      let y := protectLoop r base stop prot vs x.room x.st
      (y.1, x.kept ++ y.2.1, y.2.2.1 ++ x.new, y.2.2.2)
    else (x.st, x.kept ++ vs, x.new, false)

/-- `mprotect`; `room` is the number of areas that can be made. -/
def mprotect (u addr length prot room : Nat) : VmSt × Option Int :=
  match st.unit u with
  | none => (st, some Error.acces.toErrno)
  | some x =>
    if ¬ x.isUser then (st, some Error.acces.toErrno)
    else if length = 0 then (st, some Error.inval.toErrno)
    else
      let base := alignDown addr
      let stop := (base + alignUp length) % 2 ^ 64
      if ¬ covers x.vmas stop (x.vmas.length + 1) base then (st, some Error.noMem.toErrno)
      else
        let y := protectLoop x.realm base stop prot x.vmas room st
        (y.1.setUnit u { x with vmas := y.2.2.1 ++ y.2.1 },
          some (if y.2.2.2 then 0 else Error.noMem.toErrno))

/-! ## What is left alone

The functions on objects change objects one by one and give frames back; the loops over pages map
and unmap one page after the other. A relation that allows the single changes allows the whole. -/

/-- The frames go back; the objects stay. -/
theorem freeObjectPages_obj (pages : List Nat) : (st.freeObjectPages pages).obj = st.obj := by
  unfold freeObjectPages
  induction pages generalizing st with
  | nil => rfl
  | cons f pages ih =>
    rw [List.foldl_cons]
    split_ifs
    · exact ih st
    · exact ih (st.freePage f)

/-- A relation between the states before and after that allows what is done to objects. -/
structure Allows (R : VmSt → VmSt → Prop) : Prop where
  refl : ∀ {st}, R st st
  trans : ∀ {st st' st''}, R st st' → R st' st'' → R st st''
  free : ∀ {st f}, R st (st.freePage f)
  setObj : ∀ {st o b b'}, st.obj o = some b → b'.kind = b.kind → R st (st.setObj o (some b'))
  removeObj : ∀ {st : VmSt} {o},
    R st { st.setObj o none with fileTable := st.fileTable.filter fun e => e.obj ≠ o }

section Allows

variable {R : VmSt → VmSt → Prop} (hR : Allows R) {st : VmSt} {r va n o : Nat} {v : VmArea}
  {base stop prot room : Nat}

include hR

/-- The pages of an object are freed one by one. -/
theorem Allows.freeObjectPages {pages : List Nat} : R st (st.freeObjectPages pages) := by
  unfold VmSt.freeObjectPages
  induction pages generalizing st with
  | nil => exact hR.refl
  | cons f pages ih =>
    rw [List.foldl_cons]
    split_ifs
    · exact ih
    · exact hR.trans hR.free ih

/-- Its frames go back before the object goes. -/
theorem Allows.destroyObject {b : Backing} : R st (st.destroyObject o b) :=
  hR.trans hR.freeObjectPages hR.removeObj

theorem Allows.addMapping : R st (st.addMapping o) := by
  unfold VmSt.addMapping
  split
  · exact hR.refl
  · rename_i hb
    exact hR.setObj hb rfl

/-- The last mapping of an object may destroy it; any other is counted down. -/
theorem Allows.removeMapping : R st (st.removeMapping o) := by
  unfold VmSt.removeMapping
  cases hb : st.obj o with
  | none => exact hR.refl
  | some b =>
    dsimp only
    repeat' split
    · exact hR.destroyObject
    · exact hR.setObj hb rfl
    · exact hR.destroyObject
    · exact hR.setObj hb rfl
    · exact hR.setObj hb rfl

theorem Allows.dropBacking {o : Option Nat} : R st (st.dropBacking o) := by
  cases o with
  | none => exact hR.refl
  | some o => exact hR.removeMapping

/-- A second area on an object counts as one more mapping. -/
theorem Allows.shareBacking : R st (st.shareBacking v) := by
  unfold VmSt.shareBacking
  repeat' split
  · exact hR.refl
  · exact hR.addMapping
  · exact hR.refl

/-- The last handle destroys an object that is unlinked and not mapped. -/
theorem Allows.releaseHandle : R st (st.releaseHandle o) := by
  unfold VmSt.releaseHandle
  cases hb : st.obj o with
  | none => exact hR.refl
  | some b =>
    dsimp only
    split
    · exact hR.destroyObject
    · exact hR.setObj hb rfl

theorem Allows.markUnlinked : R st (st.markUnlinked o) := by
  unfold VmSt.markUnlinked
  split
  · exact hR.refl
  · rename_i hb
    exact hR.setObj hb rfl

/-- A smaller size gives back the frames past it first. -/
theorem Allows.resize {b : Backing} (hb : st.obj o = some b) {newSize : Nat} {ok : Bool} :
    R st (st.resize o b newSize ok).1 := by
  have hfreed : ∀ fs, (st.freeObjectPages fs).obj o = some b := fun fs => by
    rw [freeObjectPages_obj]
    exact hb
  unfold VmSt.resize
  dsimp only
  split_ifs
  · exact hR.setObj hb rfl
  · exact hR.trans hR.freeObjectPages (hR.setObj (hfreed _) rfl)
  · exact hR.trans hR.freeObjectPages (hR.setObj (hfreed _) rfl)
  · exact hR.refl

/-- A part before the range is one more area on the object. -/
theorem Allows.protectHead {a b : Nat} {tails : List VmArea} :
    R st (protectArea.protectHead st prot v a b tails room).st := by
  unfold protectArea.protectHead
  split_ifs
  · exact hR.refl
  · exact hR.shareBacking
  · exact hR.refl

section Unmap

variable (hunmap : ∀ {st va}, R st (st.unmapPage r va))

include hunmap

theorem Allows.unmapPages : R st (st.unmapPages r va n) := by
  induction n generalizing st va with
  | zero => exact hR.refl
  | succ n ih => exact hR.trans hunmap ih

/-- Frames go back in an anonymous area only. -/
theorem Allows.unmapRange {free : Bool} : R st (st.unmapRange r va free n) := by
  induction n generalizing st va with
  | zero => exact hR.refl
  | succ n ih =>
    rw [VmSt.unmapRange]
    refine hR.trans ?_ ih
    -- no frame there, one that goes back, one of an object
    split_ifs
    · exact hR.refl
    · exact hR.trans hunmap hR.free
    · exact hunmap

/-- An area keeps its object with one part left, drops it with none, shares it with two. -/
theorem Allows.munmapArea {split : Bool} : R st (st.munmapArea r base stop v split).1 := by
  have hpages : ∀ {a n}, R st (st.unmapRange r a (mapAnonymous v.flags) n) := hR.unmapRange hunmap
  unfold VmSt.munmapArea
  split_ifs
  · exact hR.refl
  · exact hpages
  · exact hR.trans hpages hR.dropBacking
  · exact hR.trans hpages hR.shareBacking
  · exact hpages
  · exact hpages

/-- The areas one after the other. -/
theorem Allows.munmapLoop {vs : List (VmArea × Bool)} : R st (munmapLoop r base stop vs st).1 := by
  induction vs generalizing st with
  | nil => exact hR.refl
  | cons v vs ih => exact hR.trans (hR.munmapArea hunmap) ih

end Unmap

section Protect

variable (hremap : ∀ {st a writable present}, st.physicalAddressIgnorePresent r a ≠ 0 →
  R st (st.mapPage r a (st.physicalAddressIgnorePresent r a) writable present (st.originOf r a)))

include hremap

/-- A page is mapped again at its own frame, with other flags. -/
theorem Allows.protectPages {a : Nat} : R st (protectPages r prot n a st) := by
  induction n generalizing st a with
  | zero => exact hR.refl
  | succ n ih =>
    rw [VmSt.protectPages]
    refine hR.trans ?_ ih
    split_ifs with hnull
    · exact hR.refl
    · exact hremap hnull

/-- Up to three parts, each of which names the object. -/
theorem Allows.protectArea : R st (st.protectArea r base stop prot v room).st := by
  unfold VmSt.protectArea
  dsimp only
  split_ifs
  · exact hR.refl
  · exact hR.protectPages hremap
  · exact hR.trans (hR.protectPages hremap) (hR.trans hR.shareBacking hR.protectHead)
  · exact hR.trans (hR.protectPages hremap) hR.protectHead

/-- The areas up to the first that cannot be split. -/
theorem Allows.protectLoop {vs : List VmArea} : R st (protectLoop r base stop prot vs room st).1 := by
  induction vs generalizing st room with
  | nil => exact hR.refl
  | cons v vs ih =>
    unfold VmSt.protectLoop
    dsimp only
    split_ifs
    · exact hR.trans (hR.protectArea hremap) ih
    · exact hR.protectArea hremap

end Protect

section Frames

variable (hphys : ∀ {st : VmSt} {ph}, R st { st with phys := ph })

include hphys

/-- A page that is missing gets a frame, and the object its address. -/
theorem Allows.getPage {offset : Nat} : R st (st.getPage o offset).1 := by
  unfold VmSt.getPage
  cases hb : st.obj o with
  | none => exact hR.refl
  | some b =>
    dsimp only
    -- past the end, a page that is there, a device; then no frame, and a new one
    split_ifs
    · exact hR.refl
    · exact hR.refl
    · exact hR.refl
    · exact hphys
    · have hrequest : R st st.requestPage.1 := hphys
      exact hR.trans (hR.trans hrequest hphys) (hR.setObj hb rfl)

/-- The page is a fresh frame, or the object's own. -/
theorem Allows.sourcePage {i : Nat} {src : Source} : R st (st.sourcePage i src).1 := by
  cases src with
  | anonymous => exact hphys
  | object o offset => exact hR.getPage hphys

/-- `brk` maps zeroed frames, up to the first that is missing. -/
theorem Allows.growLoop {a : Nat} (hmap : ∀ {st b pa}, a ≤ b → b < a + n * pageSize →
    R st (st.mapPage r b pa true true .fresh)) : R st (growLoop r n a st).1 := by
  induction n generalizing st a with
  | zero => exact hR.refl
  | succ n ih =>
    rw [VmSt.growLoop]
    have hpos : 0 < pageSize := by decide
    rw [Nat.succ_mul] at hmap
    -- what was mapped before a failure stays
    split_ifs
    · exact hphys
    · have hzero : R st (st.requestPage.1.zeroPage st.requestPage.2) := hphys
      refine hR.trans hzero (hR.trans (hmap le_rfl (by omega)) (ih fun hb hb' => ?_))
      exact hmap (by omega) (by omega)

/-- `mmap` takes its pages back when one is missing. -/
theorem Allows.mmapLoop (hunmap : ∀ {st va}, R st (st.unmapPage r va)) {writable shared : Bool}
    {src : Source} {i : Nat} (hmap : ∀ {st j pa}, j < i + n →
      R st (st.mapPage r (base + j * pageSize) pa writable true (st.sourceOrigin shared j src))) :
    R st (mmapLoop r base writable shared src n i st).1 := by
  induction n generalizing st i with
  | zero => exact hR.refl
  | succ n ih =>
    rw [VmSt.mmapLoop]
    have hpage : R st (st.sourcePage i src).1 := hR.sourcePage hphys
    split_ifs
    · exact hR.trans hpage (hR.unmapPages hunmap)
    · exact hR.trans hpage (hR.trans (hmap (by omega)) (ih fun hj => hmap (by omega)))

end Frames

end Allows

/-- Everything but frames and objects is the same. -/
structure SameTables (st st' : VmSt) : Prop where
  unit : st'.unit = st.unit
  space : st'.space = st.space
  trampoline : st'.trampoline = st.trampoline
  kernelFrames : st'.kernelFrames = st.kernelFrames
  handles : st'.handles = st.handles

theorem SameTables.refl : SameTables st st := ⟨rfl, rfl, rfl, rfl, rfl⟩

theorem SameTables.trans {st st' st'' : VmSt} (h : SameTables st st') (h' : SameTables st' st'') :
    SameTables st st'' :=
  ⟨h'.unit.trans h.unit, h'.space.trans h.space, h'.trampoline.trans h.trampoline,
    h'.kernelFrames.trans h.kernelFrames, h'.handles.trans h.handles⟩

/-- Objects and frames are all that the functions on objects change. -/
theorem SameTables.allows : Allows SameTables where
  refl := .refl _
  trans := .trans
  free := ⟨rfl, rfl, rfl, rfl, rfl⟩
  setObj _ _ := ⟨rfl, rfl, rfl, rfl, rfl⟩
  removeObj := ⟨rfl, rfl, rfl, rfl, rfl⟩

variable (st : VmSt)

/-- The object of a file is made with the first mapping. -/
theorem sameTables_getOrCreate {node : Nat} : SameTables st (st.getOrCreate node).1 := by
  unfold getOrCreate
  dsimp only
  repeat' split
  all_goals exact ⟨rfl, rfl, rfl, rfl, rfl⟩

theorem sameTables_handleObject (he : HandleEntry (Option Nat)) (offset : Nat) :
    SameTables st (st.handleObject he offset).1 := by
  unfold handleObject
  split
  · exact .refl st
  · exact sameTables_getOrCreate _
  · exact .refl st
  · exact .refl st

/-- A handle is turned into an object, with one more mapping. -/
theorem sameTables_resolveBacking (realm : Nat) (handle : UInt64) (length offset : Nat) :
    SameTables st (st.resolveBacking realm handle length offset).1 := by
  unfold resolveBacking
  dsimp only
  repeat' split
  · exact .refl st
  all_goals
    first
    | exact sameTables_handleObject st _ _
    | exact (sameTables_handleObject st _ _).trans SameTables.allows.addMapping

theorem sameTables_sourcePage (i : Nat) (src : Source) : SameTables st (st.sourcePage i src).1 :=
  SameTables.allows.sourcePage ⟨rfl, rfl, rfl, rfl, rfl⟩

/-- Objects are numbered by those who make them. -/
theorem allows_nextObj : Allows fun st st' => st'.nextObj = st.nextObj :=
  ⟨rfl, fun h h' => h'.trans h, rfl, fun _ _ => rfl, rfl⟩

/-- No unit is changed, by this and by the loops below. -/
theorem allows_unit : Allows fun st st' => st'.unit = st.unit :=
  ⟨rfl, fun h h' => h'.trans h, rfl, fun _ _ => rfl, rfl⟩

@[simp] theorem setUnit_unit {u : Nat} {x : VmUnit} :
    (st.setUnit u x).unit = update st.unit u (some x) := rfl

@[simp] theorem mapPage_unit {r va pa : Nat} {writable present : Bool} {origin : Origin} :
    (st.mapPage r va pa writable present origin).unit = st.unit := by
  unfold mapPage
  split <;> rfl

@[simp] theorem unmapPage_unit {r va : Nat} : (st.unmapPage r va).unit = st.unit := by
  unfold unmapPage
  split <;> rfl

@[simp] theorem dropBacking_unit {o : Option Nat} : (st.dropBacking o).unit = st.unit :=
  allows_unit.dropBacking

@[simp] theorem resolveBacking_unit (realm : Nat) (handle : UInt64) (length offset : Nat) :
    (st.resolveBacking realm handle length offset).1.unit = st.unit :=
  (sameTables_resolveBacking st realm handle length offset).unit

@[simp] theorem unmapPages_unit (r va n : Nat) : (st.unmapPages r va n).unit = st.unit :=
  allows_unit.unmapPages (unmapPage_unit _)

@[simp] theorem unmapRange_unit (r va : Nat) (free : Bool) (n : Nat) :
    (st.unmapRange r va free n).unit = st.unit := allows_unit.unmapRange (unmapPage_unit _)

@[simp] theorem mmapLoop_unit (r base : Nat) (writable shared : Bool) (src : Source) (n i : Nat) :
    (mmapLoop r base writable shared src n i st).1.unit = st.unit :=
  allows_unit.mmapLoop rfl (unmapPage_unit _) fun _ => mapPage_unit _

@[simp] theorem growLoop_unit (r n a : Nat) : (growLoop r n a st).1.unit = st.unit :=
  allows_unit.growLoop rfl fun _ _ => mapPage_unit _

@[simp] theorem munmapLoop_unit (r base stop : Nat) (vs : List (VmArea × Bool)) :
    (munmapLoop r base stop vs st).1.unit = st.unit := allows_unit.munmapLoop (unmapPage_unit _)

@[simp] theorem protectLoop_unit (r base stop prot : Nat) (vs : List VmArea) (room : Nat) :
    (protectLoop r base stop prot vs room st).1.unit = st.unit :=
  allows_unit.protectLoop fun _ => mapPage_unit _

@[simp] theorem mapPage_obj {r va pa : Nat} {writable present : Bool} {origin : Origin} :
    (st.mapPage r va pa writable present origin).obj = st.obj := by
  unfold mapPage
  split <;> rfl

@[simp] theorem unmapPage_obj (r va : Nat) : (st.unmapPage r va).obj = st.obj := by
  unfold unmapPage
  split <;> rfl

@[simp] theorem unmapRange_obj (r va : Nat) (free : Bool) (n : Nat) :
    (st.unmapRange r va free n).obj = st.obj := by
  induction n generalizing st va with
  | zero => rfl
  | succ n ih =>
    rw [unmapRange, ih]
    split_ifs
    · rfl
    · exact unmapPage_obj st r va
    · exact unmapPage_obj st r va

end VmSt

end Vespera.Memory
