import Vespera.Exec.Elf
import Vespera.Realm.RealmManager

/-! # spawn

`kernel/exec/spawn.cpp`: create a realm, give it a session, standard handles,
credentials and a working directory, load the image and start its main unit.
Every failure after the creation aborts the realm.

The credentials a realm is started with come from three places: the defaults of
`RealmManager::create` (root), the configuration or the parent, and the set-ID
rule of each image that is loaded. `spawn_ok` puts the three together.
-/

namespace Vespera.Exec

open Klib Security Realms

/-- `spawn_config_t`. -/
structure SpawnConfig where
  stdinHandle : UInt64 := 0
  stdoutHandle : UInt64 := 0
  stderrHandle : UInt64 := 0
  bgRealm : Bool := false
  realmName : Option Str := none
  uid : UInt32 := 0
  gid : UInt32 := 0
  home : Option Str := none
deriving Repr, DecidableEq

/-- What `spawn` asks of the rest of the kernel. -/
structure SpawnEnv (ρ : Type) extends LoaderEnv where
  createAllocs : CreateAllocs
  /-- The handle `install_stdio_handle` opens on a device path. -/
  openDevice : Str → UInt64 → Except Error ρ
  /-- `ChannelEndpoint::create` for the VBUS channel. -/
  vbusEndpoint : Option ρ
  /-- `tty::tty_devices[0]`. -/
  tty0 : Option Nat
  /-- Whether `UnitManager::create` returns a unit. -/
  unitOk : Bool

section Handles

variable {ρ : Type}
variable (env : SpawnEnv ρ)

def installStdioHandle (t : HandleTable ρ) (hid : UInt64) (devPath : Str)
    (caps : UInt64) : HandleTable ρ × Except Error Unit :=
  match env.openDevice devPath hid with
  | .error e => (t, .error e)
  | .ok vh =>
    let t := if (t.lookup hid).isSome then (t.release hid).1 else t
    match t.addAt hid .device vh (caps ||| capDeviceAccess) false with
    | .error e => (t, .error e)
    | .ok t => (t, .ok ())

def setupStdio (t : HandleTable ρ) (devPath : Str) : HandleTable ρ × Except Error Unit :=
  match installStdioHandle env t handleStdin devPath capRead with
  | (t, .error e) => (t, .error e)
  | (t, .ok ()) =>
    match installStdioHandle env t handleStdout devPath capWrite with
    | (t, .error e) => (t, .error e)
    | (t, .ok ()) => installStdioHandle env t handleStderr devPath capWrite

def setupVbus (t : HandleTable ρ) : HandleTable ρ × Except Error Unit :=
  match env.vbusEndpoint with
  | none => (t, .error .noMem)
  | some ep =>
    match t.addAt handleVbus .channel ep (capRead ||| capWrite) false with
    | .error e => (t, .error e)
    | .ok t => (t, .ok ())

/-- `transfer_handle`: the destination table, and whether it worked. -/
def transferHandle (src dst : HandleTable ρ) (srcHid dstFixedId : UInt64) :
    HandleTable ρ × Bool :=
  if srcHid = 0 then (dst, true)
  else match src.lookup srcHid with
  | none => (dst, false)
  | some he =>
    if !he.transferable then (dst, false)
    else
      let dst := if (dst.lookup dstFixedId).isSome then (dst.release dstFixedId).1 else dst
      match dst.addAt dstFixedId he.type he.resource he.capabilities he.transferable with
      | .error _ => (dst, false)
      | .ok dst => (dst, true)

/-- The three transfers of `spawn`, stopping at the first that fails. -/
def transferStdio (src dst : HandleTable ρ) (cfg : SpawnConfig) : HandleTable ρ × Bool :=
  match transferHandle src dst cfg.stdinHandle handleStdin with
  | (dst, false) => (dst, false)
  | (dst, true) =>
    match transferHandle src dst cfg.stdoutHandle handleStdout with
    | (dst, false) => (dst, false)
    | (dst, true) => transferHandle src dst cfg.stderrHandle handleStderr

end Handles

/-! ## The stages of spawn -/

section Stages

variable {ρ : Type}

/-- The credentials of the new realm before any image is loaded. -/
def initialCred (parent : Option ProcessCredentials) (cfg : Option SpawnConfig)
    (cred : ProcessCredentials) : ProcessCredentials :=
  match cfg with
  | some cfg =>
    let cred := if cfg.uid ≠ 0 then cred.setIds .user cfg.uid cfg.uid cfg.uid else cred
    if cfg.gid ≠ 0 then cred.setIds .group cfg.gid cfg.gid cfg.gid else cred
  | none =>
    match parent with
    | some cred => cred
    | none => cred

variable (env : SpawnEnv ρ)

/-- Session, process group and standard handles. -/
def setupSession (parent : Option (Realm ρ)) (cfg : Option SpawnConfig)
    (r : Realm ρ) : Realm ρ × Except Error Unit :=
  -- `get_tty_device` always returns `nullptr`, so the terminal is always the first one
  let tty := env.tty0
  let r := { r with parentId := (parent.map Realm.id).getD 0, pgid := r.id }
  if (cfg.map SpawnConfig.bgRealm).getD false then
    let (t, res) := setupStdio env r.handleTable "/dev/null".toList
    ({ r with sid := r.id, controllingTty := none, handleTable := t }, res.mapError fun _ => .noMem)
  else
    let r := { r with sid := (parent.map Realm.sid).getD r.id, controllingTty := tty }
    if tty.isSome then
      let (t, res) := setupStdio env r.handleTable "/dev/tty0".toList
      ({ r with handleTable := t }, res.mapError fun _ => .noMem)
    else (r, .ok ())

/-- Credentials and handles from the configuration or the parent. -/
def setupCredentials (parent : Option (Realm ρ)) (cfg : Option SpawnConfig) (r : Realm ρ) :
    Realm ρ × Except Error Unit :=
  let r := { r with cred := initialCred (parent.map Realm.cred) cfg r.cred }
  match cfg, parent with
  | some cfg, some parent =>
    let (t, ok) := transferStdio parent.handleTable r.handleTable cfg
    ({ r with handleTable := t }, if ok then .ok () else .error .badH)
  | _, _ => (r, .ok ())

/-- Root and working directory of the current realm, for `resolve_path`. -/
def pathsOf (parent : Option (Realm ρ)) : Option (Str × Str) :=
  parent.map fun p => (p.rootPath, p.cwdPath)

/-- The new realm's working directory. -/
def initialCwd (parent : Option (Realm ρ)) (cfg : Option SpawnConfig) (cwd : Str) : Str :=
  match cfg.bind SpawnConfig.home with
  | some home =>
    match resolvePath (pathsOf parent) home 256 with
    | .ok resolved => resolved
    | .error _ => cwd
  | none =>
    match parent with
    | some p => p.cwdPath
    | none => cwd

/-- Check the image at a resolved path, load it and create the main unit. -/
def execImage (norm : Str) (r : Realm ρ) : Realm ρ × Except Error LoadResult :=
  match env.openFile norm with
  | .error e => (r, .error e)
  | .ok node =>
    if node.noexec then (r, .error .acces)
    else match load env.toLoaderEnv norm 0x500000 r.cred with
    | (.error _, cred) => ({ r with cred := cred }, .error .noExec)
    | (.ok elf, cred) =>
      let r := { r with cred := cred, tlsRegionNext := (elf.loadEnd + 0xFFF) &&& ~~~0xFFF }
      if !env.unitOk then (r, .error .fault) else (r, .ok elf)

/-- Everything `spawn` does to the realm it has created. -/
def buildRealm (parent : Option (Realm ρ)) (path : Str)
    (cfg : Option SpawnConfig) (r : Realm ρ) : Realm ρ × Except Error LoadResult :=
  match setupSession env parent cfg r with
  | (r, .error e) => (r, .error e)
  | (r, .ok ()) =>
    match setupVbus env r.handleTable with
    | (t, .error _) => ({ r with handleTable := t }, .error .noMem)
    | (t, .ok ()) =>
      match setupCredentials parent cfg { r with handleTable := t } with
      | (r, .error e) => (r, .error e)
      | (r, .ok ()) =>
        match resolvePath (pathsOf parent) path 256 with
        | .error _ => (r, .error .inval)
        | .ok norm =>
          execImage env norm { r with cwdPath := initialCwd parent cfg r.cwdPath }

/-- The name of the realm: the configured one, or the last component of the path. -/
def realmName (path : Str) (cfg : Option SpawnConfig) : Str :=
  match cfg.bind SpawnConfig.realmName with
  | some n => n
  | none => (path.reverse.takeWhile (· ≠ '/')).reverse

/-- `spawn(path, argv, envp, cfg)` called by a unit of the realm in slot
`parent`: the realm table, and the id of the new realm. -/
def spawn (rm : RealmManager ρ) (parent : Option (Fin maxRealms))
    (path : Option Str) (cfg : Option SpawnConfig) : RealmManager ρ × Except Error Nat :=
  match path with
  | none => (rm, .error .inval)
  | some path =>
    let rcfg : RealmConfig :=
      { name := some (realmName path cfg)
        capabilities := capRead ||| capWrite ||| capDeviceAccess
        isUser := true }
    match rm.create rcfg env.createAllocs with
    | (rm', none) => (rm', .error .noMem)
    | (rm', some i) =>
      match buildRealm env (parent.map rm.realms) path cfg (rm'.realms i) with
      | (r, .error e) => ((rm'.setRealm i r).abort r.id, .error e)
      | (r, .ok _) => (rm'.setRealm i r, .ok r.id)

end Stages

/-! ## What each stage keeps -/

section Specs

variable {ρ : Type} {env : SpawnEnv ρ} {parent : Option (Realm ρ)} {cfg : Option SpawnConfig}
  {r r' : Realm ρ} {path : Str}

/-- `r'` is still the realm `r`: same id, still active. -/
structure SameRealm (r r' : Realm ρ) : Prop where
  id : r'.id = r.id
  active : r'.active = r.active

theorem SameRealm.trans {r'' : Realm ρ} (h : SameRealm r r') (h' : SameRealm r' r'') :
    SameRealm r r'' := ⟨h'.id.trans h.id, h'.active.trans h.active⟩

/-- What the stages of `spawn` after the first leave alone. -/
structure Stage (r r' : Realm ρ) : Prop extends SameRealm r r' where
  root : r'.rootPath = r.rootPath
  pgid : r'.pgid = r.pgid
  sid : r'.sid = r.sid

/-- What `spawn` makes of the realm it has created. Nothing sets the root; the realm starts a group,
and is in a session of its own or in that of its parent. -/
structure Built (parent : Option (Realm ρ)) (r r' : Realm ρ) : Prop extends SameRealm r r' where
  root : r'.rootPath = r.rootPath
  pgid : r'.pgid = r.id
  sid : r'.sid = r.id ∨ ∃ p, parent = some p ∧ r'.sid = p.sid

theorem Built.stage {r'' : Realm ρ} (h : Built parent r r') (h' : Stage r' r'') :
    Built parent r r'' :=
  ⟨h.toSameRealm.trans h'.toSameRealm, h'.root.trans h.root, h'.pgid.trans h.pgid,
    by rw [h'.sid]; exact h.sid⟩

theorem setupSession_spec {res : Except Error Unit}
    (h : setupSession env parent cfg r = (r', res)) : Built parent r r' ∧ r'.cred = r.cred := by
  have hforeground : (parent.map Realm.sid).getD r.id = r.id ∨
      ∃ p, parent = some p ∧ (parent.map Realm.sid).getD r.id = p.sid := by
    cases parent with
    | none => exact .inl rfl
    | some p => exact .inr ⟨p, rfl, rfl⟩
  simp only [setupSession] at h
  split_ifs at h <;> obtain ⟨rfl, -⟩ := Prod.mk.inj h
  · exact ⟨⟨⟨rfl, rfl⟩, rfl, rfl, .inl rfl⟩, rfl⟩
  · exact ⟨⟨⟨rfl, rfl⟩, rfl, rfl, hforeground⟩, rfl⟩
  · exact ⟨⟨⟨rfl, rfl⟩, rfl, rfl, hforeground⟩, rfl⟩

theorem setupCredentials_spec {res : Except Error Unit}
    (h : setupCredentials parent cfg r = (r', res)) :
    Stage r r' ∧ r'.cred = initialCred (parent.map Realm.cred) cfg r.cred := by
  unfold setupCredentials at h
  split at h
  all_goals
    obtain ⟨rfl, -⟩ := Prod.mk.inj h
    exact ⟨⟨⟨rfl, rfl⟩, rfl, rfl, rfl⟩, rfl⟩

theorem execImage_stage {norm : Str} {res : Except Error LoadResult}
    (h : execImage env norm r = (r', res)) : Stage r r' := by
  unfold execImage at h
  split at h
  · cases h; exact ⟨⟨rfl, rfl⟩, rfl, rfl, rfl⟩
  split at h
  · cases h; exact ⟨⟨rfl, rfl⟩, rfl, rfl, rfl⟩
  split at h
  · cases h; exact ⟨⟨rfl, rfl⟩, rfl, rfl, rfl⟩
  · split at h <;> (cases h; exact ⟨⟨rfl, rfl⟩, rfl, rfl, rfl⟩)

theorem execImage_ok {norm : Str} {elf : LoadResult} (h : execImage env norm r = (r', .ok elf)) :
    load env.toLoaderEnv norm 0x500000 r.cred = (.ok elf, r'.cred) := by
  unfold execImage at h
  split at h
  · cases h
  split at h
  · cases h
  split at h
  · cases h
  rename_i elf' cred hload
  split at h
  · cases h
  · cases h
    exact hload

theorem buildRealm_built {res : Except Error LoadResult}
    (h : buildRealm env parent path cfg r = (r', res)) : Built parent r r' := by
  unfold buildRealm at h
  split at h
  · rename_i hsession
    cases h
    exact (setupSession_spec hsession).1
  rename_i r1 hsession
  have h1 : Built parent r r1 := (setupSession_spec hsession).1
  split at h
  · cases h
    exact h1.stage ⟨⟨rfl, rfl⟩, rfl, rfl, rfl⟩
  rename_i t _
  have h2 : Built parent r { r1 with handleTable := t } := h1.stage ⟨⟨rfl, rfl⟩, rfl, rfl, rfl⟩
  split at h
  · rename_i hcred
    cases h
    exact h2.stage (setupCredentials_spec hcred).1
  rename_i r3 hcred
  have h3 : Built parent r r3 := h2.stage (setupCredentials_spec hcred).1
  split at h
  · cases h
    exact h3
  · have h4 : Built parent r { r3 with cwdPath := initialCwd parent cfg r3.cwdPath } :=
      h3.stage ⟨⟨rfl, rfl⟩, rfl, rfl, rfl⟩
    exact h4.stage (execImage_stage h)

/-- A realm that was built has the credentials its images left it with,
starting from the configuration's or the parent's. -/
theorem buildRealm_ok {elf : LoadResult} (h : buildRealm env parent path cfg r = (r', .ok elf)) :
    ∃ norm, resolvePath (pathsOf parent) path 256 = .ok norm ∧
      load env.toLoaderEnv norm 0x500000 (initialCred (parent.map Realm.cred) cfg r.cred) =
        (.ok elf, r'.cred) := by
  unfold buildRealm at h
  split at h
  · cases h
  rename_i r1 hsession
  have hcred1 : r1.cred = r.cred := (setupSession_spec hsession).2
  split at h
  · cases h
  split at h
  · cases h
  rename_i r3 hcred
  have hcred3 : r3.cred = initialCred (parent.map Realm.cred) cfg r1.cred :=
    (setupCredentials_spec hcred).2
  split at h
  · cases h
  rename_i norm hnorm
  have hload := execImage_ok h
  rw [hcred3, hcred1] at hload
  exact ⟨norm, hnorm, hload⟩

end Specs

/-! ## The created realm -/

section Created

variable {ρ : Type} {env : SpawnEnv ρ} {rm rm' : RealmManager ρ}
  {parent : Option (Fin maxRealms)} {path : Option Str} {cfg : Option SpawnConfig}

open RealmManager

/-- A successful spawn: the realm in some slot that was free, under the id that
is returned, with the credentials its images left it with. -/
theorem spawn_ok {id : Nat} (h : spawn env rm parent path cfg = (rm', .ok id)) :
    ∃ i p norm elf, path = some p ∧ resolvePath (pathsOf (parent.map rm.realms)) p 256 = .ok norm ∧
      load env.toLoaderEnv norm 0x500000
        (initialCred (parent.map fun j => (rm.realms j).cred) cfg {}) =
          (.ok elf, (rm'.realms i).cred) ∧
      (rm'.realms i).active ∧ (rm'.realms i).id = id ∧ id = rm.nextId ∧
      rm'.nextId = rm.nextId + 1 ∧ ∀ j, j ≠ i → rm'.realms j = rm.realms j := by
  unfold spawn at h
  split at h
  · cases h
  rename_i p
  dsimp only at h
  split at h
  · cases h
  rename_i rm1 i hcreate
  have htaken := (create_some hcreate).1
  split at h
  · cases h
  rename_i r elf hbuild
  obtain ⟨hrm, hres⟩ := Prod.mk.inj h
  cases hres
  subst hrm
  have hsame := buildRealm_built hbuild
  obtain ⟨norm, hnorm, hload⟩ := buildRealm_ok hbuild
  have hparent : (parent.map rm.realms).map Realm.cred =
      parent.map fun j => (rm.realms j).cred := by
    rw [Option.map_map]
    rfl
  rw [htaken.cred, hparent] at hload
  refine ⟨i, p, norm, elf, rfl, hnorm, ?_, ?_, ?_, ?_, htaken.nextId, ?_⟩
  · rw [setRealm_self]
    exact hload
  · rw [setRealm_self, hsame.active]
    exact htaken.active
  · rw [setRealm_self]
  · rw [hsame.id, htaken.id]
  · intro j hj
    rw [setRealm_of_ne hj, htaken.other j hj]

/-- Whatever `spawn` does: an active realm is one that was there, or has the next id and the
root `/`. -/
theorem spawn_slots {res : Except Error Nat} (h : spawn env rm parent path cfg = (rm', res)) :
    (rm'.nextId = rm.nextId ∧ ∀ j, (rm'.realms j).active → rm'.realms j = rm.realms j) ∨
    (rm'.nextId = rm.nextId + 1 ∧ ∃ i, ∀ j, (rm'.realms j).active → rm'.realms j = rm.realms j ∨
        (j = i ∧ (rm'.realms j).id = rm.nextId ∧ (rm'.realms j).rootPath = ['/'])) := by
  unfold spawn at h
  split at h
  · cases h
    exact .inl ⟨rfl, fun _ _ => rfl⟩
  next p =>
    dsimp only at h
    split at h
    · -- no slot, or one that is left taken
      next rm1 hcreate =>
      cases h
      rcases create_cases hcreate with ⟨-, hnext, hrealms⟩ | ⟨i, htaken, -⟩
      · exact .inl ⟨hnext, fun j _ => congrFun hrealms j⟩
      refine .inr ⟨htaken.nextId, i, fun j _ => ?_⟩
      by_cases hij : j = i
      · subst hij
        exact .inr ⟨rfl, htaken.id, htaken.root⟩
      · exact .inl (htaken.other j hij)
    next rm1 i hcreate =>
      have htaken := (create_some hcreate).1
      -- the realm under construction sits in slot `i`
      have hbuilt : ∀ r res, buildRealm env (parent.map rm.realms) p cfg (rm1.realms i) = (r, res) →
          ∀ j, (rm1.setRealm i r).realms j = rm.realms j ∨
            (j = i ∧ ((rm1.setRealm i r).realms j).id = rm.nextId ∧
              ((rm1.setRealm i r).realms j).rootPath = ['/']) := by
        intro r res hbuild j
        by_cases hij : j = i
        · subst hij
          rw [setRealm_self]
          have hb := buildRealm_built hbuild
          exact .inr ⟨rfl, hb.id.trans htaken.id, hb.root.trans htaken.root⟩
        · rw [setRealm_of_ne hij]
          exact .inl (htaken.other j hij)
      refine .inr ?_
      split at h
      · next r e hbuild =>
        cases h
        refine ⟨(keepsRoots_abort _ _).nextId.trans htaken.nextId, i, fun j hj => ?_⟩
        rw [abort_active hj]
        exact hbuilt r _ hbuild j
      · next r elf hbuild =>
        cases h
        exact ⟨htaken.nextId, i, fun j _ => hbuilt r _ hbuild j⟩

/-- Whatever `spawn` does, the realms that were there keep their credentials. -/
theorem spawn_grows {res : Except Error Nat} (h : spawn env rm parent path cfg = (rm', res)) :
    Grows rm rm' := by
  rcases spawn_slots h with ⟨hnext, hslots⟩ | ⟨hnext, i, hslots⟩
  · refine ⟨hnext.ge, fun j hj => .inl ?_⟩
    have hsame := hslots j hj
    rw [hsame] at hj ⊢
    exact ⟨hj, rfl, rfl⟩
  refine ⟨by omega, fun j hj => ?_⟩
  rcases hslots j hj with hsame | ⟨-, hid, -⟩
  · rw [hsame] at hj ⊢
    exact .inl ⟨hj, rfl, rfl⟩
  · exact .inr ⟨by omega, by omega⟩

end Created

end Vespera.Exec
