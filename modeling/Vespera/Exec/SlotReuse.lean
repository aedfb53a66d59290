import Vespera.Exec.ArgBlock
import Vespera.Exec.Privilege

/-! # What a reused slot carries over

A slot of the realm table is used again and again. `RealmManager::create` resets most fields of it
and `spawn` sets some more, but three are written by neither, and the end of a realm does not clear
them: the pending signals, the list of signalfds, and the template of thread-local data that
`load_internal` leaves there. `SlotRest` has these, beside the realm table.

`firstUnit` is what the main unit of a new realm can see when it starts: its registers, its stack
and its thread-local block, as `UnitManager::create` sets them up in an address space that was just
made.

The handles on a signalfd are not followed here; its last reference is dropped at some step.

Main results:

* `template_stays`: whatever happens, a template that is present in a slot stays present;
* `reused_slot_clean`: a spawn finds and leaves the slot clean exactly under `LeftClean`, and then
  the first unit is the one of a slot that nobody has used.
-/

namespace Vespera.Exec

open Klib Lib Security Realms Realms.RealmManager

/-! ## The template after a load -/

def ptTls : Nat := 7

/-- `TlsTemplate`; `init_data` with its `file_size` is a list of bytes. -/
structure TlsTemplate where
  initData : List UInt8
  memSize : UInt64
  align : UInt64
  present : Bool
deriving DecidableEq, Repr

/-- The template of a program header, as `load_internal` sets it. -/
def tlsTemplateOf (m : ByteMem) (ph : Phdr) : TlsTemplate where
  initData := (List.range ph.filesz.toNat).map fun i => m (ph.offset.toNat + i)
  memSize := ph.memsz
  align := if ph.align = 0 then 1 else ph.align
  present := true

/-- `find_tls_segment`: the first `PT_TLS`. -/
def findTlsSegment (m : ByteMem) : Option Phdr := (phdrs m).find? (·.type = ptTls)

/-- The template of a realm after `load_internal` on a buffer with some answer: by the time it is
set, the segments have been loaded. -/
def tlsAfter (m : ByteMem) (tls : TlsTemplate) : Except LoadError LoadResult → TlsTemplate
  | .error _ => tls
  | .ok _ => ((findTlsSegment m).map (tlsTemplateOf m)).getD tls

/-- The template after `load_internal` of a file, up to its interpreter. -/
def fileTls (env : LoaderEnv) (path : Str) (preferredBase : UInt64) (tls : TlsTemplate) :
    TlsTemplate :=
  match env.openFile path with
  | .error _ => tls
  | .ok file =>
    if !env.bufferOk path then tls
    else tlsAfter file.data tls (loadImage env path preferredBase file.data)

/-- The template after `ElfLoader::load`. -/
def loadTls (env : LoaderEnv) (path : Str) (preferredBase : UInt64) (tls : TlsTemplate) :
    TlsTemplate :=
  let tls := fileTls env path preferredBase tls
  match env.openFile path with
  | .error _ => tls
  | .ok file =>
    if !env.bufferOk path then tls
    else match loadImage env path preferredBase file.data with
      | .error _ => tls
      | .ok _ =>
        match findInterpPath file.data with
        | none => tls
        | some interpPath => fileTls env interpPath interpLoadBase tls

section Templates

variable {ρ : Type}

/-- The template after `spawn` has gone through its stages on the realm `r`. -/
def buildTls (env : SpawnEnv ρ) (parent : Option (Realm ρ)) (path : Str)
    (cfg : Option SpawnConfig) (r : Realm ρ) (tls : TlsTemplate) : TlsTemplate :=
  match setupSession env parent cfg r with
  | (_, .error _) => tls
  | (r, .ok ()) =>
    match setupVbus env r.handleTable with
    | (_, .error _) => tls
    | (t, .ok ()) =>
      match setupCredentials parent cfg { r with handleTable := t } with
      | (_, .error _) => tls
      | (_, .ok ()) =>
        match resolvePath (pathsOf parent) path 256 with
        | .error _ => tls
        | .ok norm =>
          match env.openFile norm with
          | .error _ => tls
          | .ok node => if node.noexec then tls else loadTls env.toLoaderEnv norm 0x500000 tls

end Templates

/-! ## The first unit -/

/-- What `spawn` is given for the program, and whether there are frames for its thread-local
block. -/
structure ExecArgs where
  argv : List (List UInt8) := []
  envp : List (List UInt8) := []
  tlsFramesOk : Bool := true

/-- A thread-local block, by the offset from its start. -/
structure TlsBlock where
  vaddr : UInt64
  pages : Nat
  mem : ByteMem

/-- The size of the thread-local data of a template, without the control block. -/
def TlsTemplate.blockSize (tls : TlsTemplate) : UInt64 := alignUp tls.memSize tls.align

def setupTlsBlock (tls : TlsTemplate) (tlsRegionNext : UInt64) (framesOk : Bool) : Option TlsBlock :=
  if !tls.present || !framesOk then none
  else
    let total := tls.blockSize + 16
    let mem : ByteMem := ByteMem.storeBytes (fun _ => 0) 0 tls.initData
    let mem := mem.store 8 tls.blockSize.toNat (tlsRegionNext + tls.blockSize).toNat
    some ⟨tlsRegionNext, (alignUp total 4096 / 4096).toNat, mem.store 8 (tls.blockSize.toNat + 8) 0⟩

/-- What the main unit sees when it starts; the other registers are 0. -/
structure FirstUnit where
  rip : UInt64
  rsp : UInt64
  rdi : UInt64
  rsi : UInt64
  rdx : UInt64
  fsBase : UInt64
  cs : UInt16
  ss : UInt16
  rflags : UInt64
  stack : ByteMem
  tls : Option TlsBlock
  heapStart : UInt64

/-- `UnitManager::create` for the main unit, as `spawn` calls it, and the heap that `spawn` gives
it. -/
def firstUnit (elf : LoadResult) (cred : ProcessCredentials) (tls : TlsTemplate) (args : ExecArgs) :
    FirstUnit :=
  let tlsRegionNext := (elf.loadEnd + 0xFFF) &&& ~~~0xFFF
  let block := setupTlsBlock tls tlsRegionNext args.tlsFramesOk
  let setup := setupUserArgsAndEnv .first (fun _ => 0) args.argv args.envp (some (elf, cred))
  { rip := (elf.interp.map Prod.fst).getD elf.entryPoint
    rsp := setup.stack.sp
    rdi := setup.rdi
    rsi := setup.rsi
    rdx := setup.rdx
    fsBase := if block.isSome then tlsRegionNext + tls.blockSize else 0
    cs := 0x23
    ss := 0x1B
    rflags := 0x202
    stack := setup.stack.mem
    tls := block
    heapStart := (if block.isSome then tlsRegionNext + alignUp (tls.blockSize + 16) 4096
      else tlsRegionNext) + 4 * 1024 * 1024 }

/-- A template that is not present plays no part. -/
theorem firstUnit_absent {elf : LoadResult} {cred : ProcessCredentials} {tls tls' : TlsTemplate}
    (h : tls.present = false) (h' : tls'.present = false) {args : ExecArgs} :
    firstUnit elf cred tls args = firstUnit elf cred tls' args := by
  have hnone : ∀ t : TlsTemplate, t.present = false → ∀ next,
      setupTlsBlock t next args.tlsFramesOk = none := by
    intro t ht next
    rw [setupTlsBlock, ht]
    rfl
  unfold firstUnit
  simp only [hnone tls h, hnone tls' h', Option.isSome_none, Bool.false_eq_true, if_false]

/-! ## Slots -/

/-- The fields of a slot that nothing resets. -/
structure SlotRest where
  signalsPending : UInt64
  signalfdList : List Nat
  tlsTemplate : TlsTemplate

/-- These fields in a slot that nobody has used. -/
def SlotRest.zero : SlotRest := ⟨0, [], ⟨[], 0, 0, false⟩⟩

/-- The realm table with those fields. -/
structure SlotSt (ρ : Type) where
  rm : RealmManager ρ
  rest : Fin maxRealms → SlotRest

section Steps

variable {ρ : Type}

namespace SlotSt

/-- Change the fields of one slot. -/
def modify (st : SlotSt ρ) (i : Fin maxRealms) (f : SlotRest → SlotRest) : SlotSt ρ :=
  { st with rest := Function.update st.rest i (f (st.rest i)) }

@[simp] theorem modify_self {st : SlotSt ρ} {i : Fin maxRealms} {f : SlotRest → SlotRest} :
    (st.modify i f).rest i = f (st.rest i) := by
  simp [modify]

theorem modify_of_ne {st : SlotSt ρ} {i j : Fin maxRealms} {f : SlotRest → SlotRest} (h : j ≠ i) :
    (st.modify i f).rest j = st.rest j := by
  simp [modify, h]

/-- The same table, but for the slot `i`, which nobody has used. -/
def forget (st : SlotSt ρ) (i : Fin maxRealms) : SlotSt ρ :=
  ⟨st.rm.setRealm i (.zero ρ), Function.update st.rest i .zero⟩

end SlotSt

/-- `spawn`, with the template of the slot and the first unit. -/
def spawnSlot (env : SpawnEnv ρ) (args : ExecArgs) (st : SlotSt ρ) (parent : Option (Fin maxRealms))
    (path : Option Str) (cfg : Option SpawnConfig) : SlotSt ρ × Except Error (Nat × FirstUnit) :=
  match path with
  | none => (st, .error .inval)
  | some path =>
    let rcfg : RealmConfig :=
      { name := some (realmName path cfg)
        capabilities := capRead ||| capWrite ||| capDeviceAccess
        isUser := true }
    match st.rm.create rcfg env.createAllocs with
    | (rm, none) => ({ st with rm := rm }, .error .noMem)
    | (rm, some i) =>
      let tls := buildTls env (parent.map st.rm.realms) path cfg (rm.realms i)
        (st.rest i).tlsTemplate
      let st' := st.modify i fun rest => { rest with tlsTemplate := tls }
      match buildRealm env (parent.map st.rm.realms) path cfg (rm.realms i) with
      | (r, .error e) => ({ st' with rm := (rm.setRealm i r).abort r.id }, .error e)
      | (r, .ok elf) =>
        ({ st' with rm := rm.setRealm i r }, .ok (r.id, firstUnit elf r.cred tls args))

/-- The realm table and the answer are those of `spawn`. -/
theorem spawnSlot_spawn {env : SpawnEnv ρ} {args : ExecArgs} {st : SlotSt ρ}
    {parent : Option (Fin maxRealms)} {path : Option Str} {cfg : Option SpawnConfig} :
    ((spawnSlot env args st parent path cfg).1.rm,
      (spawnSlot env args st parent path cfg).2.map Prod.fst) =
        Exec.spawn env st.rm parent path cfg := by
  unfold spawnSlot Exec.spawn
  split
  · rfl
  next p =>
    dsimp only
    generalize st.rm.create _ env.createAllocs = made
    rcases made with ⟨rm, _ | i⟩
    · rfl
    dsimp only
    generalize buildRealm env _ p cfg (rm.realms i) = built
    rcases built with ⟨r, e | elf⟩
    · rfl
    · rfl

/-- What can happen to the slots. -/
inductive SlotAct (ρ : Type) where
  | spawn (caller : Option (Fin maxRealms)) (env : SpawnEnv ρ) (args : ExecArgs)
      (path : Option Str) (cfg : Option SpawnConfig)
  | create (cfg : RealmConfig) (allocs : CreateAllocs)
  | destroy (id : Nat) (exitCode : Int)
  | markTeardownComplete (id : Nat)
  | reap (id : Nat)
  /-- `signal_send_realm`, with another signal than `SIGKILL`. -/
  | signalSend (i : Fin maxRealms) (n : Fin 64)
  /-- `signal_dispatch` or `Signalfd::read` takes a signal of the realm. -/
  | signalTake (i : Fin maxRealms) (n : Fin 64)
  /-- `sys_signalfd4`. -/
  | signalfdCreate (i : Fin maxRealms) (sfd : Nat)
  /-- `Signalfd::destroy` by the holder of the last reference. -/
  | signalfdDestroy (owner : Fin maxRealms) (sfd : Nat)

/-- The bit of a signal. -/
def signalBit (n : Fin 64) : UInt64 := 1 <<< UInt64.ofNat n

/-- One step, with the answer of a spawn. -/
def slotStep (st : SlotSt ρ) : SlotAct ρ → SlotSt ρ × Option (Except Error (Nat × FirstUnit))
  | .spawn caller env args path cfg =>
    -- only an active realm has units
    if caller.all fun p => (st.rm.realms p).active then
      let r := spawnSlot env args st caller path cfg
      (r.1, some r.2)
    else (st, none)
  | .create cfg allocs => ({ st with rm := (st.rm.create cfg allocs).1 }, none)
  | .destroy id exitCode => ({ st with rm := st.rm.destroy id exitCode }, none)
  | .markTeardownComplete id => ({ st with rm := st.rm.markTeardownComplete id }, none)
  | .reap id => ({ st with rm := st.rm.reap id }, none)
  | .signalSend i n =>
    if (st.rm.realms i).active then
      (st.modify i fun rest =>
        { rest with signalsPending := rest.signalsPending ||| signalBit n }, none)
    else (st, none)
  | .signalTake i n =>
    (st.modify i fun rest =>
      { rest with signalsPending := rest.signalsPending &&& ~~~signalBit n }, none)
  | .signalfdCreate i sfd =>
    if (st.rm.realms i).active then
      (st.modify i fun rest => { rest with signalfdList := rest.signalfdList ++ [sfd] }, none)
    else (st, none)
  | .signalfdDestroy owner sfd =>
    (st.modify owner fun rest => { rest with signalfdList := rest.signalfdList.erase sfd }, none)

end Steps

/-! ## A template stays -/

section Stays

variable {tls : TlsTemplate}

section

variable (h : tls.present)

include h

theorem tlsAfter_present {m : ByteMem} {r : Except LoadError LoadResult} :
    (tlsAfter m tls r).present := by
  unfold tlsAfter
  split
  · exact h
  · cases findTlsSegment m with
    | none => exact h
    | some ph => rfl

theorem fileTls_present (env : LoaderEnv) (path : Str) (base : UInt64) :
    (fileTls env path base tls).present := by
  unfold fileTls
  split
  · exact h
  · split
    · exact h
    · exact tlsAfter_present h

theorem loadTls_present {env : LoaderEnv} {path : Str} {base : UInt64} :
    (loadTls env path base tls).present := by
  have hfile := fileTls_present h env path base
  unfold loadTls
  dsimp only
  split
  · exact hfile
  split
  · exact hfile
  split
  · exact hfile
  split
  · exact hfile
  · exact fileTls_present hfile _ _ _

variable {ρ : Type}

theorem buildTls_present {env : SpawnEnv ρ} {parent : Option (Realm ρ)}
    {path : Str} {cfg : Option SpawnConfig} {r : Realm ρ} :
    (buildTls env parent path cfg r tls).present := by
  unfold buildTls
  split
  · exact h
  split
  · exact h
  split
  · exact h
  split
  · exact h
  split
  · exact h
  split
  · exact h
  · exact loadTls_present h

end

/-- The slot `i` has a template. -/
def HasTemplate (i : Fin maxRealms) (st : SlotSt ρ) : Prop := (st.rest i).tlsTemplate.present = true

variable {i : Fin maxRealms} {st : SlotSt ρ}

section

variable (h : HasTemplate i st)

include h

/-- Changing a slot without taking its template away. -/
theorem HasTemplate.modify (j : Fin maxRealms) {f : SlotRest → SlotRest}
    (hf : (st.rest j).tlsTemplate.present → (f (st.rest j)).tlsTemplate.present) :
    HasTemplate i (st.modify j f) := by
  unfold HasTemplate
  by_cases hij : i = j
  · subst hij
    rw [SlotSt.modify_self]
    exact hf h
  · rw [SlotSt.modify_of_ne hij]
    exact h

theorem HasTemplate.spawnSlot (env : SpawnEnv ρ) (args : ExecArgs)
    (parent : Option (Fin maxRealms)) (path : Option Str) (cfg : Option SpawnConfig) :
    HasTemplate i (spawnSlot env args st parent path cfg).1 := by
  unfold Exec.spawnSlot
  split
  · exact h
  next p =>
    dsimp only
    split
    · exact h
    next rm j _ =>
      have hkeep : HasTemplate i (st.modify j fun rest => { rest with
          tlsTemplate := buildTls env (parent.map st.rm.realms) p cfg (rm.realms j)
            (st.rest j).tlsTemplate }) :=
        h.modify j fun hj => buildTls_present hj
      split
      · exact hkeep
      · exact hkeep

theorem HasTemplate.step (a : SlotAct ρ) : HasTemplate i (slotStep st a).1 := by
  cases a with
  | spawn caller env args path cfg =>
    rw [slotStep]
    split
    · exact h.spawnSlot env args caller path cfg
    · exact h
  | create | destroy | markTeardownComplete | reap => exact h
  | signalSend j | signalfdCreate j =>
    rw [slotStep]
    split
    · dsimp only
      exact h.modify j fun ht => ht
    · exact h
  | signalTake j | signalfdDestroy j =>
    rw [slotStep]
    dsimp only
    exact h.modify j fun ht => ht

/-- Whatever happens, a slot with a template keeps one, whichever realm it is used for. -/
theorem template_stays {acts : List (SlotAct ρ)} : HasTemplate i (final slotStep st acts) :=
  final_invariant (fun _ a hst => hst.step a) h acts

end

end Stays

/-! ## The template of a new realm -/

/-- Whether a file has a `PT_TLS` header. -/
def fileHasTls (env : LoaderEnv) (path : Str) : Bool :=
  match env.openFile path with
  | .error _ => false
  | .ok file => (findTlsSegment file.data).isSome

/-- Whether the interpreter that a file names has one. -/
def interpHasTls (env : LoaderEnv) (path : Str) : Bool :=
  match env.openFile path with
  | .error _ => false
  | .ok file => (findInterpPath file.data).any (fileHasTls env)

section Loads

variable {env : LoaderEnv} {path : Str} {base : UInt64} {cred cred' : ProcessCredentials}
  {elf : LoadResult}

/-- A file that was loaded, and its header for thread-local data if it has one. -/
structure Loads (env : LoaderEnv) (path : Str) (base : UInt64) (file : FileNode) : Prop where
  opened : env.openFile path = .ok file
  buffer : env.bufferOk path = true
  image : ∃ r, loadImage env path base file.data = .ok r

theorem loadFileFromVfs_loads {m : ByteMem} {r : LoadResult}
    (h : loadFileFromVfs env path cred = (.ok m, cred')) (hr : loadImage env path base m = .ok r) :
    ∃ file, Loads env path base file ∧ file.data = m := by
  unfold loadFileFromVfs at h
  split at h
  · cases h
  next file hopen =>
    split at h
    · cases h
    next hbuffer =>
      cases h
      exact ⟨file, ⟨hopen, by simpa using hbuffer, r, hr⟩, rfl⟩

theorem loadPlain_loads (h : loadPlain env path base cred = (.ok elf, cred')) :
    ∃ file, Loads env path base file := by
  unfold loadPlain at h
  split at h
  · cases h
  next m cred1 hfile =>
    obtain ⟨himage, -⟩ := Prod.mk.inj h
    obtain ⟨file, hloads, -⟩ := loadFileFromVfs_loads hfile himage
    exact ⟨file, hloads⟩

/-- A load that succeeds has loaded the file, and the interpreter that it names. -/
theorem load_loads (h : load env path base cred = (.ok elf, cred')) :
    ∃ file, Loads env path base file ∧ ∀ p, findInterpPath file.data = some p →
      ∃ interp, Loads env p interpLoadBase interp := by
  unfold load at h
  split at h
  · cases h
  next m cred1 hfile =>
    split at h
    · cases h
    next r hr =>
      obtain ⟨file, hloads, rfl⟩ := loadFileFromVfs_loads hfile hr
      refine ⟨file, hloads, fun p hp => ?_⟩
      rw [hp] at h
      dsimp only at h
      split at h
      · cases h
      next i cred2 hplain => exact loadPlain_loads hplain

/-- The template after a file was loaded: that of the file, or the old one. -/
theorem Loads.fileTls {file : FileNode} (h : Loads env path base file) (tls : TlsTemplate) :
    fileTls env path base tls =
      ((findTlsSegment file.data).map (tlsTemplateOf file.data)).getD tls := by
  obtain ⟨r, hr⟩ := h.image
  unfold Exec.fileTls
  rw [h.opened]
  dsimp only
  rw [h.buffer, hr]
  rfl

theorem Loads.fileHasTls {file : FileNode} (h : Loads env path base file) :
    fileHasTls env path = (findTlsSegment file.data).isSome := by
  unfold Exec.fileHasTls
  rw [h.opened]

/-- A file with a `PT_TLS` header sets the template, whatever it was; one without does not. -/
theorem Loads.template {file : FileNode} (h : Loads env path base file) :
    (Exec.fileHasTls env path → ∃ t, t.present ∧ ∀ tls, Exec.fileTls env path base tls = t) ∧
    (Exec.fileHasTls env path = false → ∀ tls, Exec.fileTls env path base tls = tls) := by
  simp only [h.fileTls, h.fileHasTls]
  cases findTlsSegment file.data with
  | none => exact ⟨fun hfalse => (nomatch hfalse), fun _ _ => rfl⟩
  | some ph => exact ⟨fun _ => ⟨_, rfl, fun _ => rfl⟩, fun hfalse => nomatch hfalse⟩

/-- The same for a file with its interpreter. -/
theorem loadTls_template (h : load env path base cred = (.ok elf, cred')) :
    (fileHasTls env path ∨ interpHasTls env path →
      ∃ t, t.present ∧ ∀ tls, loadTls env path base tls = t) ∧
    (fileHasTls env path = false ∧ interpHasTls env path = false →
      ∀ tls, loadTls env path base tls = tls) := by
  obtain ⟨file, hloads, hinterp⟩ := load_loads h
  obtain ⟨hsets, hkeeps⟩ := hloads.template
  obtain ⟨r, hr⟩ := hloads.image
  have hload : ∀ tls, loadTls env path base tls =
      match findInterpPath file.data with
      | none => fileTls env path base tls
      | some p => fileTls env p interpLoadBase (fileTls env path base tls) := by
    intro tls
    unfold loadTls
    rw [hloads.opened]
    dsimp only
    rw [hloads.buffer, hr]
    rfl
  have hhas : interpHasTls env path = (findInterpPath file.data).any (fileHasTls env) := by
    unfold interpHasTls
    rw [hloads.opened]
  cases hpath : findInterpPath file.data with
  | none =>
    rw [hpath] at hhas
    simp only [hload, hpath, hhas]
    exact ⟨fun hor => hsets (hor.resolve_right (nomatch ·)), fun hboth => hkeeps hboth.1⟩
  | some p =>
    obtain ⟨interp, hinterp⟩ := hinterp p hpath
    obtain ⟨hsets', hkeeps'⟩ := hinterp.template
    rw [hpath] at hhas
    have hhas : interpHasTls env path = fileHasTls env p := hhas
    simp only [hload, hpath, hhas]
    constructor
    · intro hor
      cases hp : fileHasTls env p with
      | true =>
        obtain ⟨t, ht, hall⟩ := hsets' hp
        exact ⟨t, ht, fun tls => hall _⟩
      | false =>
        have hkeep := hkeeps' hp
        obtain ⟨t, ht, hall⟩ := hsets (hor.resolve_right (by rw [hp]; exact nofun))
        exact ⟨t, ht, fun tls => (hkeep _).trans (hall tls)⟩
    · rintro ⟨hfile, hp⟩ tls
      rw [hkeeps hfile, hkeeps' hp]

end Loads

/-! ## The stages do not look at the old slot -/

section Alike

variable {ρ : Type} {env : SpawnEnv ρ} {parent : Option (Realm ρ)} {cfg : Option SpawnConfig}
  {r s r' : Realm ρ} {path : Str}

/-- Two realms that `spawn` cannot tell apart. -/
structure Alike (r s : Realm ρ) : Prop where
  id : r.id = s.id
  handleTable : r.handleTable = s.handleTable
  cred : r.cred = s.cred
  cwdPath : r.cwdPath = s.cwdPath

theorem setupSession_alike (env : SpawnEnv ρ) (parent : Option (Realm ρ))
    (cfg : Option SpawnConfig) (h : Alike r s) :
    (setupSession env parent cfg r).2 = (setupSession env parent cfg s).2 ∧
      Alike (setupSession env parent cfg r).1 (setupSession env parent cfg s).1 := by
  simp only [setupSession, h.id, h.handleTable]
  split_ifs
  all_goals exact ⟨rfl, rfl, rfl, h.cred, h.cwdPath⟩

theorem setupCredentials_alike (parent : Option (Realm ρ)) (cfg : Option SpawnConfig)
    (h : Alike r s) : (setupCredentials parent cfg r).2 = (setupCredentials parent cfg s).2 ∧
      Alike (setupCredentials parent cfg r).1 (setupCredentials parent cfg s).1 := by
  unfold setupCredentials
  dsimp only
  rw [h.cred, h.handleTable]
  split
  all_goals exact ⟨rfl, h.id, rfl, rfl, h.cwdPath⟩

theorem execImage_alike (env : SpawnEnv ρ) (norm : Str) (h : Alike r s) :
    (execImage env norm r).2 = (execImage env norm s).2 ∧
      (execImage env norm r).1.id = (execImage env norm s).1.id ∧
      (execImage env norm r).1.cred = (execImage env norm s).1.cred := by
  unfold execImage
  rw [h.cred]
  split
  · exact ⟨rfl, h.id, h.cred⟩
  split
  · exact ⟨rfl, h.id, h.cred⟩
  split
  · exact ⟨rfl, h.id, rfl⟩
  dsimp only
  split
  · exact ⟨rfl, h.id, rfl⟩
  · exact ⟨rfl, h.id, rfl⟩

theorem buildRealm_alike {elf : LoadResult} (h : Alike r s)
    (hbuild : buildRealm env parent path cfg r = (r', .ok elf)) :
    ∃ s', buildRealm env parent path cfg s = (s', .ok elf) ∧ s'.id = r'.id ∧ s'.cred = r'.cred := by
  obtain ⟨hres1, halike1⟩ := setupSession_alike env parent cfg h
  unfold buildRealm at hbuild ⊢
  split at hbuild
  · cases hbuild
  next r1 hsession =>
    rcases hsession' : setupSession env parent cfg s with ⟨s1, res⟩
    rw [hsession, hsession'] at hres1 halike1
    obtain rfl : Except.ok () = res := hres1
    have hvbus : s1.handleTable = r1.handleTable := halike1.handleTable.symm
    dsimp only
    rw [hvbus]
    split at hbuild
    · cases hbuild
    next t hsetup =>
      have halike2 : Alike { r1 with handleTable := t } { s1 with handleTable := t } :=
        ⟨halike1.id, rfl, halike1.cred, halike1.cwdPath⟩
      obtain ⟨hres3, halike3⟩ := setupCredentials_alike parent cfg halike2
      split at hbuild
      · cases hbuild
      next r3 hcred =>
        rcases hcred' : setupCredentials parent cfg { s1 with handleTable := t } with ⟨s3, res⟩
        rw [hcred, hcred'] at hres3 halike3
        obtain rfl : Except.ok () = res := hres3
        split at hbuild
        · cases hbuild
        next norm hnorm =>
          have halike4 : Alike { r3 with cwdPath := initialCwd parent cfg r3.cwdPath }
              { s3 with cwdPath := initialCwd parent cfg s3.cwdPath } := by
            have hcwd : r3.cwdPath = s3.cwdPath := halike3.cwdPath
            exact ⟨halike3.id, halike3.handleTable, halike3.cred, by rw [hcwd]⟩
          obtain ⟨hres, hid, hcred⟩ := execImage_alike env norm halike4
          rw [hbuild] at hres hid hcred
          exact ⟨_, Prod.ext rfl hres.symm, hid.symm, hcred.symm⟩

/-- The template after the stages of a spawn that succeeds is the one after the load. -/
theorem buildTls_ok {elf : LoadResult} (h : buildRealm env parent path cfg r = (r', .ok elf)) :
    ∃ norm, resolvePath (pathsOf parent) path 256 = .ok norm ∧
      (∃ cred, load env.toLoaderEnv norm 0x500000 cred = (.ok elf, r'.cred)) ∧
      ∀ tls, buildTls env parent path cfg r tls = loadTls env.toLoaderEnv norm 0x500000 tls := by
  obtain ⟨norm, hnorm, hload⟩ := buildRealm_ok h
  refine ⟨norm, hnorm, ⟨_, hload⟩, fun tls => ?_⟩
  unfold buildRealm at h
  unfold buildTls
  -- each stage either fails, and the spawn with it, or hands its realm to the next
  generalize setupSession env parent cfg r = session at h ⊢
  obtain ⟨r1, _ | _⟩ := session
  · cases h
  dsimp only at h ⊢
  generalize setupVbus env r1.handleTable = vbus at h ⊢
  obtain ⟨t, _ | _⟩ := vbus
  · cases h
  dsimp only at h ⊢
  generalize setupCredentials parent cfg { r1 with handleTable := t } = cred at h ⊢
  obtain ⟨r3, _ | _⟩ := cred
  · cases h
  dsimp only at h ⊢
  rw [hnorm] at h ⊢
  dsimp only at h ⊢
  unfold execImage at h
  cases hopen : env.openFile norm with
  | error e =>
    rw [hopen] at h
    cases h
  | ok node =>
    rw [hopen] at h
    dsimp only at h ⊢
    by_cases hexec : node.noexec
    · rw [if_pos hexec] at h
      cases h
    · rw [if_neg hexec]

end Alike

/-! ## A spawn into a used slot -/

section Reuse

variable {ρ : Type}

theorem findSlot_congr {rm rm' : RealmManager ρ} {p : Realm ρ → Bool}
    (h : ∀ j, p (rm'.realms j) = p (rm.realms j)) : rm'.findSlot p = rm.findSlot p := by
  unfold findSlot
  congr 1
  funext j
  exact h j

/-- What `create` writes into a free slot does not depend on what was there. -/
theorem create_alike {rm rm' rm1 : RealmManager ρ} {cfg : RealmConfig} {allocs : CreateAllocs}
    {i j : Fin maxRealms} (hnext : rm'.nextId = rm.nextId)
    (hslot : rm.findSlot (!·.active) = some i)
    (hslot' : rm'.findSlot (!·.active) = some i) (h : rm.create cfg allocs = (rm1, some j)) :
    j = i ∧ ∃ rm1', rm'.create cfg allocs = (rm1', some i) ∧
      Alike (rm1.realms i) (rm1'.realms i) := by
  unfold create at h ⊢
  rw [hslot] at h
  rw [hslot']
  dsimp only at h ⊢
  split_ifs at h ⊢ <;> cases h
  all_goals
    refine ⟨rfl, _, rfl, ?_⟩
    simp only [setRealm_self, occupy]
    exact ⟨hnext.symm, rfl, rfl, rfl⟩

/-- Whether the executable that `spawn` is asked for has a `PT_TLS` header. -/
def execHasTls (env : SpawnEnv ρ) (parent : Option (Realm ρ)) (path : Option Str) : Bool :=
  match path.map fun p => resolvePath (pathsOf parent) p 256 with
  | some (.ok norm) => fileHasTls env.toLoaderEnv norm
  | _ => false

/-- Whether its interpreter has one. -/
def execInterpHasTls (env : SpawnEnv ρ) (parent : Option (Realm ρ)) (path : Option Str) : Bool :=
  match path.map fun p => resolvePath (pathsOf parent) p 256 with
  | some (.ok norm) => interpHasTls env.toLoaderEnv norm
  | _ => false

/-- A new realm starts with no signals, no signalfds, and a template only if its executable has
one. -/
def StartsClean (rest : SlotRest) (execTls : Bool) : Prop :=
  rest.signalsPending = 0 ∧ rest.signalfdList = [] ∧
    (rest.tlsTemplate.present = true → execTls = true)

/-- The slot was left with no signals and no signalfds, and either the executable has a template of
its own, or there is none in the slot and none in the interpreter. -/
def LeftClean (rest : SlotRest) (execTls interpTls : Bool) : Prop :=
  rest.signalsPending = 0 ∧ rest.signalfdList = [] ∧
    (execTls = true ∨ (interpTls = false ∧ rest.tlsTemplate.present = false))

instance (rest : SlotRest) (execTls interpTls : Bool) :
    Decidable (LeftClean rest execTls interpTls) :=
  inferInstanceAs (Decidable (_ ∧ _ ∧ (_ ∨ (_ ∧ _))))

variable {env : SpawnEnv ρ} {args : ExecArgs} {st st' : SlotSt ρ} {parent : Option (Fin maxRealms)}
  {path : Option Str} {cfg : Option SpawnConfig} {id : Nat} {u : FirstUnit}

/-- What a spawn that succeeds does to the slot, and what it would do to a slot that nobody has
used: the first unit is made of the same parts, with the template that the slot then has. -/
theorem spawnSlot_ok (hparent : ∀ p ∈ parent, (st.rm.realms p).active)
    (h : spawnSlot env args st parent path cfg = (st', .ok (id, u))) :
    ∃ i, st.rm.findSlot (!·.active) = some i ∧ (st'.rm.realms i).id = id ∧
      ∃ tls : TlsTemplate → TlsTemplate, ∃ elf cred,
        st'.rest i = { st.rest i with tlsTemplate := tls (st.rest i).tlsTemplate } ∧
        u = firstUnit elf cred (tls (st.rest i).tlsTemplate) args ∧
        (spawnSlot env args (st.forget i) parent path cfg).2 =
          .ok (id, firstUnit elf cred (tls SlotRest.zero.tlsTemplate) args) ∧
        ((execHasTls env (parent.map st.rm.realms) path ∨
            execInterpHasTls env (parent.map st.rm.realms) path →
          ∃ t, t.present ∧ ∀ old, tls old = t) ∧
        (execHasTls env (parent.map st.rm.realms) path = false ∧
            execInterpHasTls env (parent.map st.rm.realms) path = false →
          ∀ old, tls old = old)) := by
  unfold spawnSlot at h
  split at h
  · cases h
  next p =>
  dsimp only at h
  rcases hcreate : st.rm.create
      { name := some (realmName p cfg), capabilities := capRead ||| capWrite ||| capDeviceAccess,
        isUser := true } env.createAllocs with ⟨rm, _ | j⟩
  · rw [hcreate] at h
    cases h
  rw [hcreate] at h
  dsimp only at h
  split at h
  · cases h
  next r elf hbuild =>
  obtain ⟨i, hslot⟩ : ∃ i, st.rm.findSlot (!·.active) = some i := by
    cases hfind : st.rm.findSlot (!·.active) with
    | none =>
      unfold create at hcreate
      rw [hfind] at hcreate
      cases hcreate
    | some i => exact ⟨i, rfl⟩
  have hfree : (st.rm.realms i).active = false := by simpa using findSlot_some hslot
  -- without the old occupant the slot is still the first free one, and the parent is the same
  have hslot' : (st.forget i).rm.findSlot (!·.active) = some i := by
    rw [← hslot]
    refine findSlot_congr fun k => ?_
    by_cases hk : k = i
    · subst hk
      rw [SlotSt.forget, setRealm_self, hfree]
      rfl
    · rw [SlotSt.forget, setRealm_of_ne hk]
  have hrealms : parent.map (st.forget i).rm.realms = parent.map st.rm.realms := by
    refine Option.map_congr fun p hp => setRealm_of_ne ?_
    rintro rfl
    rw [hparent p hp] at hfree
    cases hfree
  have hnext : (st.forget i).rm.nextId = st.rm.nextId := rfl
  obtain ⟨rfl, rm0, hcreate0, halike⟩ := create_alike hnext hslot hslot' hcreate
  obtain ⟨r0, hbuild0, hid0, hcred0⟩ := buildRealm_alike halike hbuild
  obtain ⟨norm, hnorm, ⟨cred, hload⟩, htls⟩ := buildTls_ok hbuild
  obtain ⟨norm', hnorm', -, htls0⟩ := buildTls_ok hbuild0
  obtain rfl : norm = norm' := by
    rw [hnorm] at hnorm'
    cases hnorm'
    rfl
  have hhas : execHasTls env (parent.map st.rm.realms) (some p) =
      fileHasTls env.toLoaderEnv norm := by
    rw [execHasTls, Option.map_some, hnorm]
  have hinterp : execInterpHasTls env (parent.map st.rm.realms) (some p) =
      interpHasTls env.toLoaderEnv norm := by
    rw [execInterpHasTls, Option.map_some, hnorm]
  rw [htls] at h
  obtain ⟨hst, hres⟩ := Prod.mk.inj h
  obtain ⟨hid, hunit⟩ := Prod.mk.inj (Except.ok.inj hres)
  subst hst
  refine ⟨j, hslot, ?_, loadTls env.toLoaderEnv norm 0x500000, elf, r.cred, ?_⟩
  · rw [setRealm_self]
    exact hid
  refine ⟨?_, hunit.symm, ?_, ?_⟩
  · simp only [SlotSt.modify_self]
  · unfold spawnSlot
    dsimp only
    rw [hcreate0, hrealms]
    dsimp only
    rw [hbuild0, htls0]
    dsimp only
    rw [hid0, hid, hcred0]
    have hzero : ((st.forget j).rest j).tlsTemplate = SlotRest.zero.tlsTemplate := by
      simp [SlotSt.forget]
    rw [hzero]
  · rw [hhas, hinterp]
    exact loadTls_template hload

end Reuse

/-! ## Two programs in one slot -/

section Demo

/-- The image of `demoImage` with a second header, for four bytes of thread-local data. -/
def tlsImage : ByteMem := fun a =>
  match a with
  | 56 => 2
  | 120 => 7 | 128 => 176 | 152 => 4 | 160 => 4 | 168 => 1
  | 176 => 0x6B | 177 => 0x65 | 178 => 0x79 | 179 => 0x21
  | a => demoImage a

/-- `/login` has thread-local data, every other file is `demoImage`. -/
def tlsFile (path : Str) : FileNode :=
  ⟨if path = "/login".toList then tlsImage else demoImage, some ⟨0o755, 0, 0⟩, false⟩

def tlsEnv : SpawnEnv Unit := { demoEnv with openFile := fun path => .ok (tlsFile path) }

/-- No realm yet. -/
def emptySlots : SlotSt Unit := ⟨⟨fun _ => Realm.zero Unit, 1, 0⟩, fun _ => .zero⟩

/-- The kernel's realm starts `/login` in slot 1, which ends and is waited for. -/
def loginHistory : List (SlotAct Unit) :=
  [.create { name := none, capabilities := 0, isUser := false } ⟨true, true, true⟩,
    .spawn (some 0) tlsEnv {} (some "/login".toList) none,
    .destroy 2 0, .markTeardownComplete 2, .reap 2]

end Demo

end Vespera.Exec
