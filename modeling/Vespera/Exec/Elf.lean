import Vespera.Klib.Path
import Vespera.Lib.ByteMem
import Vespera.Security.Credentials

/-! # The ELF loader

`kernel/exec/elf.cpp` as far as it decides whether an image loads, where, and
with which credentials. The file is the buffer `load_file_from_vfs` reads it
into: a byte memory, whose bytes past the file size are whatever the kernel heap
holds there, since the loader never compares an offset with the size.

An image is loaded in the order of the source: the credentials change as soon
as the file is open and the buffer allocated, before any check of the contents,
and once more for the interpreter named by `PT_INTERP`.

What the segments put into the address space is not part of this model; the
loader only learns whether `request_pages_phys` gave it the frames.
-/

namespace Vespera.Exec

open Klib Lib Security

/-- A file as the loader sees it after `VFS::open`. -/
structure FileNode where
  data : ByteMem
  /-- `VFS::stat`, if the node has it and it succeeds. -/
  stat : Option Stat
  /-- Whether the mount has `MS_NOEXEC`. -/
  noexec : Bool

/-- What the loader asks of the rest of the kernel. -/
structure LoaderEnv where
  /-- `VFS::open`. -/
  openFile : Str → Except Error FileNode
  /-- Whether `malloc` of the buffer for the file at a path succeeds. -/
  bufferOk : Str → Bool
  /-- Whether `request_pages_phys` has the frames for a segment of the file at a path. A request for
  no pages is refused in any case. -/
  framesOk : Str → Nat → Bool

/-! ## Headers -/

def ptLoad : Nat := 1
def ptInterp : Nat := 3
def etExec : Nat := 2
def etDyn : Nat := 3
def emX8664 : Nat := 62

/-- The fields of `Elf64_Ehdr` the loader reads. -/
structure Ehdr where
  type : Nat
  machine : Nat
  entry : UInt64
  phoff : UInt64
  phentsize : Nat
  phnum : Nat

/-- The fields of `Elf64_Phdr` the loader reads. -/
structure Phdr where
  type : Nat
  offset : UInt64
  vaddr : UInt64
  filesz : UInt64
  memsz : UInt64
  align : UInt64

variable (m : ByteMem)

/-- The `Elf64_Ehdr` at the start of the buffer. -/
def ehdr : Ehdr where
  type := m.load 2 16
  machine := m.load 2 18
  entry := UInt64.ofNat (m.load 8 24)
  phoff := UInt64.ofNat (m.load 8 32)
  phentsize := m.load 2 54
  phnum := m.load 2 56

/-- `phdrs[i]`: the table has 56-byte entries whatever `e_phentsize` says. -/
def phdr (i : Nat) : Phdr :=
  let a := (ehdr m).phoff.toNat + 56 * i
  { type := m.load 4 a
    offset := UInt64.ofNat (m.load 8 (a + 8))
    vaddr := UInt64.ofNat (m.load 8 (a + 16))
    filesz := UInt64.ofNat (m.load 8 (a + 32))
    memsz := UInt64.ofNat (m.load 8 (a + 40))
    align := UInt64.ofNat (m.load 8 (a + 48)) }

/-- The program headers in order. -/
def phdrs : List Phdr := (List.range (ehdr m).phnum).map (phdr m)

def validateMagic : Bool := m 0 == 0x7f && m 1 == 0x45 && m 2 == 0x4c && m 3 == 0x46

def validateType : Bool := (ehdr m).type == etExec || (ehdr m).type == etDyn

def validateArchitecture : Bool := (ehdr m).machine == emX8664

/-- The C string at `a`, of at most `n` bytes. -/
def cString (a n : Nat) : Str :=
  ((List.range n).map fun i => Char.ofNat (m (a + i)).toNat).takeWhile (· ≠ Char.ofNat 0)

/-- `find_interp_path` with a 256-byte buffer: only the first `PT_INTERP` counts. -/
def findInterpPath : Option Str :=
  match (phdrs m).find? (·.type = ptInterp) with
  | none => none
  | some ph =>
    if ph.filesz = 0 ∨ ph.filesz ≥ 256 then none
    else some (cString m ph.offset.toNat ph.filesz.toNat)

/-! ## Address range and bias -/

def alignDown (v align : UInt64) : UInt64 := v &&& ~~~(align - 1)
def alignUp (v align : UInt64) : UInt64 := (v + align - 1) &&& ~~~(align - 1)

structure AddressRange where
  vaddrMin : UInt64
  vaddrMax : UInt64

/-- `calculate_address_range`: `none` when there is no `PT_LOAD` header. -/
def calculateAddressRange : Option AddressRange :=
  match (phdrs m).filter (·.type = ptLoad) with
  | [] => none
  | loads =>
    some (loads.foldl (fun r ph =>
      { vaddrMin := min r.vaddrMin (alignDown ph.vaddr ph.align)
        vaddrMax := max r.vaddrMax (alignUp (ph.vaddr + ph.memsz) ph.align) })
      ⟨0xFFFFFFFFFFFFFFFF, 0⟩)

def calculateLoadBias (range : AddressRange) (preferredBase : UInt64) : UInt64 :=
  if (ehdr m).type = etExec then 0 else preferredBase - range.vaddrMin

variable (env : LoaderEnv)

/-- `map_size` of `calculate_segment_mapping`. -/
def segmentMapSize (ph : Phdr) (loadBias : UInt64) : UInt64 :=
  let segVaddr := ph.vaddr + loadBias
  alignUp (segVaddr - alignDown segVaddr 4096 + ph.memsz) 4096

/-- `load_segment`, as far as it can fail. -/
def loadSegment (path : Str) (m : ByteMem) (loadBias : UInt64) (i : Nat) : Bool :=
  segmentMapSize (phdr m i) loadBias / 4096 != 0 && env.framesOk path i

/-- `process_all_segments`: every `PT_LOAD` header gets its frames. -/
def processAllSegments (path : Str) (m : ByteMem) (loadBias : UInt64) : Bool :=
  (List.range (ehdr m).phnum).all fun i =>
    (phdr m i).type != ptLoad || loadSegment env path m loadBias i

/-! ## Loading -/

/-- `LoadResult` of a load that succeeded. -/
structure LoadResult where
  entryPoint : UInt64
  loadBase : UInt64
  loadEnd : UInt64
  loadBias : UInt64
  isPie : Bool
  /-- `interp_entry` and `interp_base`, when there is an interpreter. -/
  interp : Option (UInt64 × UInt64)
  phdrVaddr : UInt64
  phent : Nat
  phnum : Nat
deriving Repr, DecidableEq

/-- The `error_message` of a load that failed. -/
inductive LoadError where
  | openFailed
  | noBuffer
  | badMagic
  | badType
  | badArchitecture
  | noLoadSegments
  | segmentsFailed
  | interpFailed
deriving Repr, DecidableEq

def interpLoadBase : UInt64 := 0x40000000

/-- `load_file_from_vfs`: the buffer, and the credentials the realm has then. -/
def loadFileFromVfs (path : Str) (cred : ProcessCredentials) :
    Except LoadError ByteMem × ProcessCredentials :=
  match env.openFile path with
  | .error _ => (.error .openFailed, cred)
  | .ok file =>
    if !env.bufferOk path then (.error .noBuffer, cred)
    else (.ok file.data, applyExecCredentials cred file.stat)

/-- The checks and address computations on a loaded buffer, up to the point
where the interpreter is loaded. -/
def loadImage (path : Str) (preferredBase : UInt64) (m : ByteMem) : Except LoadError LoadResult :=
  if !validateMagic m then .error .badMagic
  else if !validateType m then .error .badType
  else if !validateArchitecture m then .error .badArchitecture
  else match calculateAddressRange m with
  | none => .error .noLoadSegments
  | some range =>
    let loadBias := calculateLoadBias m range preferredBase
    if !processAllSegments env path m loadBias then .error .segmentsFailed
    else .ok
      { entryPoint := (ehdr m).entry + loadBias
        loadBase := range.vaddrMin + loadBias
        loadEnd := alignUp (range.vaddrMax + loadBias) 4096
        loadBias := loadBias
        isPie := (ehdr m).type == etDyn
        interp := none
        phdrVaddr := (ehdr m).phoff + loadBias
        phent := (ehdr m).phentsize
        phnum := (ehdr m).phnum }

/-- `load_internal(path, base, realm, false)`: an image whose interpreter is not
looked at. -/
def loadPlain (path : Str) (preferredBase : UInt64)
    (cred : ProcessCredentials) : Except LoadError LoadResult × ProcessCredentials :=
  match loadFileFromVfs env path cred with
  | (.error e, cred) => (.error e, cred)
  | (.ok m, cred) => (loadImage env path preferredBase m, cred)

/-- `ElfLoader::load`, that is `load_internal(path, base, realm, true)`. -/
def load (path : Str) (preferredBase : UInt64) (cred : ProcessCredentials) :
    Except LoadError LoadResult × ProcessCredentials :=
  match loadFileFromVfs env path cred with
  | (.error e, cred) => (.error e, cred)
  | (.ok m, cred) =>
    match loadImage env path preferredBase m with
    | .error e => (.error e, cred)
    | .ok r =>
      match findInterpPath m with
      | none => (.ok r, cred)
      | some interpPath =>
        match loadPlain env interpPath interpLoadBase cred with
        | (.error _, cred) => (.error .interpFailed, cred)
        | (.ok i, cred) => (.ok { r with interp := some (i.entryPoint, i.loadBase) }, cred)

/-! ## Credentials after a load -/

/-- Neither the file at `path` nor the interpreter it names has a set-ID bit. -/
def NoSetIdImage (path : Str) : Prop :=
  ∀ file, env.openFile path = .ok file →
    NoSetId file.stat ∧
    ∀ interpPath ∈ findInterpPath file.data, ∀ interp,
      env.openFile interpPath = .ok interp → NoSetId interp.stat

variable {env : LoaderEnv} {path : Str} {base : UInt64} {cred cred' : ProcessCredentials}

theorem loadFileFromVfs_ok {m : ByteMem} (h : loadFileFromVfs env path cred = (.ok m, cred')) :
    ∃ file, env.openFile path = .ok file ∧ file.data = m ∧
      cred' = applyExecCredentials cred file.stat := by
  unfold loadFileFromVfs at h
  split at h
  · cases h
  rename_i file hopen
  split at h
  · cases h
  · cases h
    exact ⟨file, hopen, rfl, rfl⟩

theorem loadPlain_ok {r : LoadResult} (h : loadPlain env path base cred = (.ok r, cred')) :
    ∃ file, env.openFile path = .ok file ∧ cred' = applyExecCredentials cred file.stat := by
  unfold loadPlain at h
  split at h
  · cases h
  · rename_i m cred1 hfile
    obtain ⟨file, hopen, -, rfl⟩ := loadFileFromVfs_ok hfile
    exact ⟨file, hopen, (Prod.mk.inj h).2.symm⟩

/-- A load that succeeds has applied the set-ID rule to the image, and to its
interpreter if it names one. -/
theorem load_ok {r : LoadResult} (h : load env path base cred = (.ok r, cred')) :
    ∃ file, env.openFile path = .ok file ∧
      ((findInterpPath file.data = none ∧ cred' = applyExecCredentials cred file.stat) ∨
        ∃ interpPath interp, findInterpPath file.data = some interpPath ∧
          env.openFile interpPath = .ok interp ∧
          cred' = applyExecCredentials (applyExecCredentials cred file.stat) interp.stat) := by
  unfold load at h
  split at h
  · cases h
  rename_i m cred1 hfile
  obtain ⟨file, hopen, rfl, rfl⟩ := loadFileFromVfs_ok hfile
  refine ⟨file, hopen, ?_⟩
  split at h
  · cases h
  split at h
  · -- no interpreter
    rename_i hnone
    cases h
    exact .inl ⟨hnone, rfl⟩
  rename_i interpPath hsome
  split at h
  · cases h
  rename_i i cred2 hplain
  obtain ⟨interp, hopen', rfl⟩ := loadPlain_ok hplain
  cases h
  exact .inr ⟨interpPath, interp, hsome, hopen', rfl⟩

/-- Loading images without set-ID bits adds no id. -/
theorem load_within {r : LoadResult} (hset : NoSetIdImage env path)
    (h : load env path base cred = (.ok r, cred')) : IdsWithin cred' cred := by
  obtain ⟨file, hopen, hcases⟩ := load_ok h
  obtain ⟨hfile, hinterp⟩ := hset file hopen
  rcases hcases with ⟨-, rfl⟩ | ⟨interpPath, interp, hpath, hopen', rfl⟩
  · exact applyExecCredentials_within hfile
  · exact (applyExecCredentials_within (hinterp interpPath hpath interp hopen')).trans
      (applyExecCredentials_within hfile)

/-- The real ids of a realm are not touched by loading images. -/
theorem load_real {r : LoadResult}
    (h : load env path base cred = (.ok r, cred')) {k : IdKind} : cred'.real k = cred.real k := by
  obtain ⟨file, -, hcases⟩ := load_ok h
  rcases hcases with ⟨-, rfl⟩ | ⟨-, interp, -, -, rfl⟩
  · exact applyExecCredentials_real
  · rw [applyExecCredentials_real, applyExecCredentials_real]

end Vespera.Exec
