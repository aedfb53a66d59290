import Vespera.Lib.ByteMem
import Vespera.Lib.Run

/-! # The userspace allocator

`malloc`, `calloc`, `realloc`, `free` and `posix_memalign` over the bytes of one process. Small
blocks are cut from a heap that `brk` extends: it is laid out in segments, each with a 32-byte
`heap_seg` in front. Blocks of 64 KiB and more get a mapping of their own, with a 24-byte
`large_seg` in front, and are found through a list.

The headers stand in memory and are read and written there, so that what a caller writes into its
block, and the headers left behind inside merged segments, are what the code sees too. The answers
of `brk` and `mmap` are inputs (`Sys`). Loops over linked headers take the number of rounds as
fuel; a run gives them more than there can be headers.
-/

namespace Vespera.Userspace

open Lib

def heapMagic : Nat := 0xDEADBEEF
def minAllocSize : Nat := 16
def largeAllocThreshold : Nat := 64 * 1024

/-- `sizeof(heap_seg)` and `sizeof(large_seg)`. -/
def heapSegSize : Nat := 32
def largeSegSize : Nat := 24

/-- `align_up`: to the next multiple of `HEAP_ALIGN`, in 64 bits. -/
def alignUp16 (n : Nat) : Nat := (n + 15) % 2 ^ 64 / 16 * 16

/-! ## Headers in memory -/

structure HeapSeg where
  length : Nat
  free : Nat
  magic : Nat
  next : Nat
  prev : Nat
deriving DecidableEq

structure LargeSeg where
  addr : Nat
  size : Nat
  next : Nat
deriving DecidableEq

def heapSeg (m : ByteMem) (a : Nat) : HeapSeg where
  length := m.load 8 a
  free := m.load 4 (a + 8)
  magic := m.load 4 (a + 12)
  next := m.load 8 (a + 16)
  prev := m.load 8 (a + 24)

def largeSeg (m : ByteMem) (a : Nat) : LargeSeg where
  addr := m.load 8 a
  size := m.load 8 (a + 8)
  next := m.load 8 (a + 16)

def putHeapSeg (m : ByteMem) (a : Nat) (s : HeapSeg) : ByteMem :=
  ((((m.store 8 a s.length).store 4 (a + 8) s.free).store 4 (a + 12) s.magic).store 8 (a + 16)
    s.next).store 8 (a + 24) s.prev

def putLargeSeg (m : ByteMem) (a : Nat) (s : LargeSeg) : ByteMem :=
  ((m.store 8 a s.addr).store 8 (a + 8) s.size).store 8 (a + 16) s.next

/-- The allocator: memory, its four globals, and the mappings it has asked for and not yet
released, the newest first. -/
structure Malloc where
  mem : ByteMem
  heapHead : Nat
  heapBase : Nat
  heapEnd : Nat
  largeAllocList : Nat
  maps : List (Nat × Nat)

/-- The answers of `brk` and `mmap` during one call. -/
structure Sys where
  brk : Nat → Nat
  mmap : Nat → Option Nat

namespace Malloc

variable (st : Malloc)

/-- Assignments to fields of the segment header at `a`. -/
def setSeg (a : Nat) (f : HeapSeg → HeapSeg) : Malloc :=
  { st with mem := putHeapSeg st.mem a (f (heapSeg st.mem a)) }

/-- `if (a) a->prev = p`. -/
def setPrev (a p : Nat) : Malloc :=
  if a ≠ 0 then st.setSeg a fun h => { h with prev := p } else st

/-! ## Segments -/

/-- `find_free_segment`, from the segment at `seg` on. -/
def findFreeSegment (m : ByteMem) (size : Nat) : Nat → Nat → Nat
  | 0, _ => 0
  | n + 1, seg =>
    if seg = 0 then 0
    else if (heapSeg m seg).magic ≠ heapMagic then 0
    else if (heapSeg m seg).free ≠ 0 ∧ size ≤ (heapSeg m seg).length then seg
    else findFreeSegment m size n (heapSeg m seg).next

def splitSegment (seg size : Nat) : Malloc :=
  let s := heapSeg st.mem seg
  if seg = 0 ∨ s.length ≤ (size + heapSegSize + minAllocSize) % 2 ^ 64 then st
  else
    let newSeg := seg + heapSegSize + size
    let st := st.setSeg newSeg fun _ => ⟨s.length - size - heapSegSize, 1, heapMagic, s.next, seg⟩
    let st := st.setPrev s.next newSeg
    st.setSeg seg fun h => { h with next := newSeg, length := size }

/-- The segment at `seg` takes over the one at `next` behind it, in `combine_segments`. -/
def absorb (seg next : Nat) : Malloc :=
  let s := heapSeg st.mem next
  let st := st.setSeg seg fun h =>
    { h with length := (h.length + (heapSegSize + s.length)) % 2 ^ 64, next := s.next }
  st.setPrev s.next seg

/-- Is there a segment at `a`, and is it free? -/
def mergeable (a : Nat) : Bool :=
  a ≠ 0 && (heapSeg st.mem a).free ≠ 0 && (heapSeg st.mem a).magic = heapMagic

def combineSegments (seg : Nat) : Malloc :=
  let next := (heapSeg st.mem seg).next
  let st := if st.mergeable next then st.absorb seg next else st
  let prev := (heapSeg st.mem seg).prev
  if st.mergeable prev then st.absorb prev seg else st

variable (sys : Sys)

def heapLazyInit : Malloc :=
  if st.heapHead ≠ 0 then st
  else
    let base := sys.brk 0
    let newBrk := (base + 0x20000) % 2 ^ 64
    if sys.brk newBrk ≠ newBrk then { st with heapBase := base }
    else
      { st with heapBase := base, heapEnd := newBrk, heapHead := base }.setSeg base fun _ =>
        ⟨0x20000 - heapSegSize, 1, heapMagic, 0, 0⟩

/-- The walk to the last segment, from `last` on. -/
def lastSegment (m : ByteMem) : Nat → Nat → Option Nat
  | 0, _ => none
  | n + 1, last =>
    if (heapSeg m last).next = 0 then some last
    else if (heapSeg m last).magic ≠ heapMagic then none
    else lastSegment m n (heapSeg m last).next

/-- The part of `malloc` that extends the heap behind its last segment. -/
def growAfter (growSize last : Nat) : Option (Malloc × Nat) :=
  if (heapSeg st.mem last).free ≠ 0 ∧ (heapSeg st.mem last).magic = heapMagic then
    let newBrk := st.heapEnd + growSize
    if sys.brk newBrk ≠ newBrk then none
    else
      let st := st.setSeg last fun h => { h with length := h.length + growSize }
      some ({ st with heapEnd := newBrk }, last)
  else
    let newBrk := st.heapEnd + heapSegSize + growSize
    if sys.brk newBrk ≠ newBrk then none
    else
      let seg := st.heapEnd
      let st := st.setSeg seg fun _ => ⟨growSize, 1, heapMagic, 0, last⟩
      let st := st.setSeg last fun h => { h with next := seg }
      some ({ st with heapEnd := newBrk }, seg)

/-- A free segment of at least `size` bytes, from a larger heap if there is none. -/
def segmentFor (n size : Nat) : Option (Malloc × Nat) :=
  let seg := findFreeSegment st.mem size n st.heapHead
  if seg ≠ 0 then some (st, seg)
  else
    match lastSegment st.mem n st.heapHead with
    | none => none
    | some last => st.growAfter sys (alignUp16 (max size 4096)) last

/-- The part of `malloc` for blocks that get a mapping of their own. -/
def mallocLarge (size : Nat) : Malloc × Nat :=
  let total := (size + largeSegSize) % 2 ^ 64
  match sys.mmap total with
  | none => (st, 0)
  | some addr =>
    ({ st with
        mem := putLargeSeg st.mem addr ⟨addr + largeSegSize, size, st.largeAllocList⟩
        largeAllocList := addr
        maps := (addr, total) :: st.maps }, addr + largeSegSize)

/-- The part of `malloc` for blocks of the heap. -/
def mallocSmall (n size : Nat) : Malloc × Nat :=
  let st := st.heapLazyInit sys
  if st.heapHead = 0 then (st, 0)
  else
    let size := max (alignUp16 size) minAllocSize
    match st.segmentFor sys n size with
    | none => (st, 0)
    | some (st, seg) =>
      let st := st.splitSegment seg size
      (st.setSeg seg fun h => { h with free := 0 }, seg + heapSegSize)

/-- `malloc`; 0 is `NULL`. -/
def malloc (n size : Nat) : Malloc × Nat :=
  if size = 0 then (st, 0)
  else if largeAllocThreshold ≤ size then st.mallocLarge sys size
  else st.mallocSmall sys n size

/-! ## Giving memory back -/

def heapFree (ptr : Nat) : Malloc :=
  if ptr = 0 then st
  else
    let seg := ptr - heapSegSize
    if (heapSeg st.mem seg).magic ≠ heapMagic then st
    else if (heapSeg st.mem seg).free ≠ 0 then st
    else (st.setSeg seg fun h => { h with free := 1 }).combineSegments seg

/-- The loop of `free` over the large blocks, from the one at `lb` on; `cur` is the header whose
`next` points to it, or nothing for the global. The block is unmapped and unlinked. -/
def unlinkLarge (st : Malloc) (ptr : Nat) : Nat → Option Nat → Nat → Option Malloc
  | 0, _, _ => none
  | n + 1, cur, lb =>
    if lb = 0 then none
    else
      let s := largeSeg st.mem lb
      if s.addr = ptr then
        let st := { st with
          maps := st.maps.erase (ptr - largeSegSize, (s.size + largeSegSize) % 2 ^ 64) }
        match cur with
        | none => some { st with largeAllocList := s.next }
        | some q =>
          some { st with mem := putLargeSeg st.mem q { largeSeg st.mem q with next := s.next } }
      else st.unlinkLarge ptr n (some lb) s.next

def free (n ptr : Nat) : Malloc :=
  if ptr = 0 then st
  else
    match st.unlinkLarge ptr n none st.largeAllocList with
    | some st => st
    | none => st.heapFree ptr

/-- The loop of `realloc` over the large blocks. -/
def findLarge (m : ByteMem) (ptr : Nat) : Nat → Nat → Option Nat
  | 0, _ => none
  | n + 1, lb =>
    if lb = 0 then none
    else if (largeSeg m lb).addr = ptr then some lb
    else findLarge m ptr n (largeSeg m lb).next

/-- A new block, the old contents, and the old block freed. How much is copied is read from the
old header after `malloc`. -/
def moveTo (n ptr newSize : Nat) (count : ByteMem → Nat) : Malloc × Nat :=
  let (st, newPtr) := st.malloc sys n newSize
  if newPtr = 0 then (st, 0)
  else ({ st with mem := st.mem.copy newPtr ptr (count st.mem) }.free n ptr, newPtr)

def realloc (n ptr newSize : Nat) : Malloc × Nat :=
  if ptr = 0 then st.malloc sys n newSize
  else if newSize = 0 then (st.free n ptr, 0)
  else
    match findLarge st.mem ptr n st.largeAllocList with
    | some lb =>
      if newSize ≤ (largeSeg st.mem lb).size then (st, ptr)
      else st.moveTo sys n ptr newSize fun m => (largeSeg m lb).size
    | none =>
      let seg := ptr - heapSegSize
      if (heapSeg st.mem seg).magic ≠ heapMagic then (st, 0)
      else
        let alignedNew := max (alignUp16 newSize) minAllocSize
        if alignedNew ≤ (heapSeg st.mem seg).length then (st.splitSegment seg alignedNew, ptr)
        else st.moveTo sys n ptr newSize fun m => min (heapSeg m seg).length newSize

def calloc (n nmemb size : Nat) : Malloc × Nat :=
  if nmemb = 0 ∨ size = 0 then (st, 0)
  else if (2 ^ 64 - 1) / nmemb < size then (st, 0)
  else
    let total := nmemb * size
    let (st, ptr) := st.malloc sys n total
    if ptr = 0 then (st, 0)
    else if total < largeAllocThreshold then ({ st with mem := st.mem.fill ptr 0 total }, ptr)
    else (st, ptr)

def einval : Nat := 22
def enomem : Nat := 12

/-- `posix_memalign`: the aligned pointer, or an error. Rounding down by division is the mask of
the source for the alignments that pass the checks. -/
def posixMemalign (n alignment size : Nat) : Malloc × Except Nat Nat :=
  if alignment % 8 ≠ 0 then (st, .error einval)
  else if alignment &&& (alignment - 1) ≠ 0 then (st, .error einval)
  else if size = 0 then (st, .ok 0)
  else
    let total := (size + alignment + 2 ^ 64 - 1 + 8) % 2 ^ 64
    let (st, raw) := st.malloc sys n total
    if raw = 0 then (st, .error enomem)
    else
      let rawAddr := raw + 8
      let alignedAddr := (rawAddr + alignment + 2 ^ 64 - 1) % 2 ^ 64 / alignment * alignment
      ({ st with mem := st.mem.store 8 ((alignedAddr + 2 ^ 64 - 8) % 2 ^ 64) raw }, .ok alignedAddr)

end Malloc

/-! ## Runs -/

inductive MallocCall where
  | malloc (size : Nat)
  | calloc (nmemb size : Nat)
  | realloc (ptr newSize : Nat)
  | free (ptr : Nat)
  | posixMemalign (alignment size : Nat)
  /-- The program writes into a block. -/
  | write (ptr i : Nat) (v : UInt8)

/-- A block the program got and has not given back: the pointer `malloc` made for it, the pointer
handed out (another one after `posix_memalign`) and the size asked for. -/
structure Block where
  raw : Nat
  ptr : Nat
  size : Nat
deriving DecidableEq

/-- The allocator and its user: what is in use, and how many calls there were. -/
structure Program where
  st : Malloc
  live : List Block
  calls : Nat

namespace Program

/-- More rounds than there are headers. -/
def fuel (c : Program) : Nat := 3 * c.calls + 4

/-- The program takes note of a new block. -/
def taken (c : Program) (st : Malloc) (b : Block) : Program × Except Nat Nat :=
  ({ st, live := if b.ptr = 0 then c.live else b :: c.live, calls := c.calls + 1 }, .ok b.ptr)

/-- The blocks that stay in use when `ptr` goes. -/
def without (c : Program) (ptr : Nat) : List Block := c.live.filter fun b => b.ptr ≠ ptr

/-- One call. -/
def step (c : Program) : Sys × MallocCall → Program × Except Nat Nat
  | (sys, .malloc size) =>
    let (st, p) := c.st.malloc sys c.fuel size
    c.taken st ⟨p, p, size⟩
  | (sys, .calloc nmemb size) =>
    let (st, p) := c.st.calloc sys c.fuel nmemb size
    c.taken st ⟨p, p, nmemb * size⟩
  | (sys, .realloc ptr newSize) =>
    let (st, p) := c.st.realloc sys c.fuel ptr newSize
    -- the old block is gone if it was freed or replaced
    let live := if p ≠ 0 ∨ newSize = 0 then c.without ptr else c.live
    { c with live }.taken st ⟨p, p, newSize⟩
  | (_, .free ptr) =>
    ({ st := c.st.free c.fuel ptr, live := c.without ptr, calls := c.calls + 1 }, .ok 0)
  | (sys, .posixMemalign alignment size) =>
    match c.st.posixMemalign sys c.fuel alignment size with
    | (st, .ok p) => c.taken st ⟨st.mem.load 8 (p - 8), p, size⟩
    | (st, .error e) => ({ c with st, calls := c.calls + 1 }, .error e)
  | (_, .write ptr i v) =>
    ({ c with st := { c.st with mem := c.st.mem.set (ptr + i) v }, calls := c.calls + 1 }, .ok 0)

/-- Before the first call. -/
def start (m : ByteMem) : Program where
  st := ⟨m, 0, 0, 0, 0, []⟩
  live := []
  calls := 0

end Program

end Vespera.Userspace
