import Vespera.Exec.Spawn

/-! # Privilege across spawn

Does `spawn` keep an unprivileged realm's descendants unprivileged?

The answer depends on the configuration. Without one the child copies its
parent. With one it starts from the defaults of `RealmManager::create`, which
are root, and the fields `uid` and `gid` replace them only when they are not 0:
the value that the interface documents as "inherit" leaves root in place.
`KeepsPrivilege` is the condition under which no id is added.

The lineage of a realm is followed through runs of spawns, credential calls and
realm teardown by any realms, with slots of the realm table being reused.

Main results:

* `spawn_within_iff`: a spawn stays within its parent's ids exactly under `KeepsPrivilege`;
* `step_inv`, `run_inv`: along runs whose spawns meet it, the lineage of an
  unprivileged realm stays unprivileged.
-/

namespace Vespera.Exec

open Klib Security Realms Realms.RealmManager ProcessCredentials

/-! ## One spawn -/

/-- The configuration names only ids its caller has: there is none, or both its
user and its group id are among the caller's. -/
def KeepsPrivilege (c : ProcessCredentials) : Option SpawnConfig → Prop
  | none => True
  | some cfg => cfg.uid ∈ c.ids .user ∧ cfg.gid ∈ c.ids .group

instance (c : ProcessCredentials) (cfg : Option SpawnConfig) : Decidable (KeepsPrivilege c cfg) :=
  match cfg with
  | none => isTrue trivial
  | some cfg => inferInstanceAs (Decidable (cfg.uid ∈ c.ids .user ∧ cfg.gid ∈ c.ids .group))

/-- The image that `path` names for a caller, and its interpreter, have no set-ID bit. -/
def NoSetIdExec {ρ : Type} (env : SpawnEnv ρ) (caller : Realm ρ) (path : Option Str) : Prop :=
  ∀ p ∈ path, ∀ norm, resolvePath (pathsOf (some caller)) p 256 = .ok norm →
    NoSetIdImage env.toLoaderEnv norm

/-- With a configuration the ids are the configured ones, 0 included. -/
theorem initialCred_config {parent : Option ProcessCredentials} {cfg : SpawnConfig} :
    initialCred parent (some cfg) {} =
      { uid := cfg.uid, euid := cfg.uid, suid := cfg.uid
        gid := cfg.gid, egid := cfg.gid, sgid := cfg.gid } := by
  unfold initialCred
  by_cases hu : cfg.uid = 0
  all_goals by_cases hg : cfg.gid = 0
  all_goals simp [hu, hg, setIds]

section OneSpawn

variable {ρ : Type} {env : SpawnEnv ρ} {rm rm' : RealmManager ρ} {p : Fin maxRealms}
  {path : Option Str} {cfg : Option SpawnConfig} {id : Nat}

/-- The realm a spawn creates is within its parent's ids iff `KeepsPrivilege`. -/
theorem spawn_within_iff (hset : NoSetIdExec env (rm.realms p) path)
    (h : spawn env rm (some p) path cfg = (rm', .ok id)) :
    ∃ i, (rm'.realms i).active ∧ (rm'.realms i).id = id ∧
      (IdsWithin (rm'.realms i).cred (rm.realms p).cred ↔
        KeepsPrivilege (rm.realms p).cred cfg) := by
  obtain ⟨i, q, norm, elf, hq, hnorm, hload, hactive, hid, -, -, -⟩ := spawn_ok h
  have himage : NoSetIdImage env.toLoaderEnv norm := hset q hq norm hnorm
  have hwithin := load_within himage hload
  refine ⟨i, hactive, hid, ?_⟩
  cases cfg with
  | none =>
    -- the child starts from a copy of the parent's credentials
    exact ⟨fun _ => trivial, fun _ => hwithin⟩
  | some cfg =>
    rw [initialCred_config] at hwithin hload
    constructor
    · -- the real ids show what the child started from
      intro hin
      have hu : (rm'.realms i).cred.real .user = cfg.uid := load_real hload
      have hg : (rm'.realms i).cred.real .group = cfg.gid := load_real hload
      constructor
      · exact hin .user cfg.uid (by rw [← hu]; simp [ids])
      · exact hin .group cfg.gid (by rw [← hg]; simp [ids])
    rintro ⟨hu, hg⟩
    refine hwithin.trans ?_
    rw [idsWithin_iff]
    constructor
    · intro j hj
      have : j = cfg.uid := by
        simpa [ids, real, effective, saved] using hj
      exact this ▸ hu
    · intro j hj
      have : j = cfg.gid := by
        simpa [ids, real, effective, saved] using hj
      exact this ▸ hg

end OneSpawn

/-! ## Lineages -/

/-- The realm table, and the ids of a realm and all its descendants so far. -/
structure St (ρ : Type) where
  rm : RealmManager ρ
  lineage : List Nat

/-- What can happen to the realm table and the credentials in it. -/
inductive Act (ρ : Type) where
  /-- A unit of the realm in slot `caller`, or the kernel, spawns. -/
  | spawn (caller : Option (Fin maxRealms)) (env : SpawnEnv ρ) (path : Option Str)
      (cfg : Option SpawnConfig)
  /-- A unit of the realm in slot `caller` makes a credential call. -/
  | credCall (caller : Fin maxRealms) (call : CredCall)
  /-- The kernel creates a realm of its own. -/
  | create (cfg : RealmConfig) (allocs : CreateAllocs)
  | destroy (id : Nat) (exitCode : Int)
  | markTeardownComplete (id : Nat)
  | reap (id : Nat)

variable {ρ : Type}

/-- The realm whose unit calls; only an active realm has units. -/
def callerOf (rm : RealmManager ρ) (caller : Fin maxRealms) : Option (Realm ρ) :=
  if (rm.realms caller).active then some (rm.realms caller) else none

/-- One step, with what the caller gets back. A child joins the lineage of its
parent. -/
def step (s : St ρ) : Act ρ → St ρ × Except Error Nat
  | .spawn (some p) env path cfg =>
    match callerOf s.rm p with
    | none => (s, .error .srch)
    | some parent =>
      match spawn env s.rm (some p) path cfg with
      | (rm, .error e) => ({ s with rm := rm }, .error e)
      | (rm, .ok id) =>
        (⟨rm, if parent.id ∈ s.lineage then id :: s.lineage else s.lineage⟩, .ok id)
  | .spawn none env path cfg =>
    let (rm, res) := spawn env s.rm none path cfg
    ({ s with rm := rm }, res)
  | .credCall p call =>
    match callerOf s.rm p with
    | none => (s, .error .srch)
    | some r =>
      match credCall r.cred call with
      | .error e => (s, .error e)
      | .ok cred => ({ s with rm := s.rm.setRealm p { r with cred := cred } }, .ok 0)
  | .create cfg allocs => ({ s with rm := (s.rm.create cfg allocs).1 }, .ok 0)
  | .destroy id exitCode => ({ s with rm := s.rm.destroy id exitCode }, .ok 0)
  | .markTeardownComplete id => ({ s with rm := s.rm.markTeardownComplete id }, .ok 0)
  | .reap id => ({ s with rm := s.rm.reap id }, .ok 0)

/-- A spawn by a realm of the lineage runs an image without set-ID bits, under a
configuration that names only ids of the caller. -/
def SpawnKeeps (s : St ρ) : Act ρ → Prop
  | .spawn (some p) env path cfg =>
    (s.rm.realms p).active = true → (s.rm.realms p).id ∈ s.lineage →
      NoSetIdExec env (s.rm.realms p) path ∧ KeepsPrivilege (s.rm.realms p).cred cfg
  | _ => True

/-- No realm of the lineage has a root user id. -/
def LineageUnprivileged (s : St ρ) : Prop :=
  ∀ i, (s.rm.realms i).active = true → (s.rm.realms i).id ∈ s.lineage →
    Unprivileged (s.rm.realms i).cred

/-- The invariant: ids are handed out in order, and the lineage is unprivileged. -/
structure Inv (s : St ρ) : Prop where
  realmIds : ∀ i, (s.rm.realms i).active = true → (s.rm.realms i).id < s.rm.nextId
  lineageIds : ∀ id ∈ s.lineage, id < s.rm.nextId
  unprivileged : LineageUnprivileged s

/-- Growing the table keeps the invariant when new realms stay outside the lineage. -/
theorem Inv.grows {s : St ρ} {rm : RealmManager ρ} (hinv : Inv s) (h : Grows s.rm rm) :
    Inv { s with rm := rm } := by
  refine ⟨?_, ?_, ?_⟩
  · intro i hi
    rcases h.realm i hi with ⟨hold, hid, -⟩ | ⟨-, hlt⟩
    · have := hinv.realmIds i hold
      have := h.nextId
      dsimp only
      omega
    · exact hlt
  · intro id hid
    exact lt_of_lt_of_le (hinv.lineageIds id hid) h.nextId
  intro i hi hmem
  rcases h.realm i hi with ⟨hold, hid, hcred⟩ | ⟨hge, -⟩
  · rw [hcred]
    exact hinv.unprivileged i hold (hid ▸ hmem)
  · -- a new id is not in the lineage yet
    have hlt : (rm.realms i).id < s.rm.nextId := hinv.lineageIds _ hmem
    omega

theorem callerOf_some {rm : RealmManager ρ} {p : Fin maxRealms} {r : Realm ρ}
    (h : callerOf rm p = some r) : (rm.realms p).active ∧ r = rm.realms p := by
  unfold callerOf at h
  split at h
  · rename_i hactive
    cases h
    exact ⟨hactive, rfl⟩
  · cases h

/-- A spawn by a member of the lineage adds an unprivileged member. -/
theorem spawn_member_inv {s : St ρ} {p : Fin maxRealms} {env : SpawnEnv ρ} {path : Option Str}
    {cfg : Option SpawnConfig} {rm : RealmManager ρ} {id : Nat} (hinv : Inv s)
    (hactive : (s.rm.realms p).active) (hmem : (s.rm.realms p).id ∈ s.lineage)
    (hset : NoSetIdExec env (s.rm.realms p) path) (hkeep : KeepsPrivilege (s.rm.realms p).cred cfg)
    (h : spawn env s.rm (some p) path cfg = (rm, .ok id)) : Inv ⟨rm, id :: s.lineage⟩ := by
  have hgrown := hinv.grows (spawn_grows h)
  have hparent := hinv.unprivileged p hactive hmem
  obtain ⟨i, q, norm, elf, hq, hnorm, hload, -, hid, hnew, hnext, hother⟩ := spawn_ok h
  refine ⟨hgrown.realmIds, ?_, ?_⟩
  · intro m hm
    rcases List.mem_cons.mp hm with rfl | hm
    · dsimp only
      omega
    · exact hgrown.lineageIds m hm
  intro j hj hjmem
  by_cases hij : j = i
  · -- the child itself
    subst hij
    obtain ⟨k, hk, hkid, hiff⟩ := spawn_within_iff hset h
    have hkj : k = j := by
      by_contra hne
      -- every other realm has an id handed out before
      have hkold : (s.rm.realms k).active := by
        rw [← hother k hne]
        exact hk
      have hlt := hinv.realmIds k hkold
      rw [← hother k hne, hkid] at hlt
      omega
    subst hkj
    exact (hiff.mpr hkeep).unprivileged hparent
  have hold : (s.rm.realms j).active := by
    rw [← hother j hij]
    exact hj
  have hlt := hinv.realmIds j hold
  rw [hother j hij] at hjmem ⊢
  rcases List.mem_cons.mp hjmem with heq | hjmem
  · omega
  · exact hinv.unprivileged j hold hjmem

/-- A credential call moves its caller within the ids it has. -/
theorem credCall_inv {s : St ρ} {p : Fin maxRealms} {call : CredCall} {cred : ProcessCredentials}
    (hinv : Inv s) (hactive : (s.rm.realms p).active)
    (h : credCall (s.rm.realms p).cred call = .ok cred) :
    Inv { s with rm := s.rm.setRealm p { s.rm.realms p with cred := cred } } := by
  refine ⟨?_, hinv.lineageIds, ?_⟩
  · intro i hi
    by_cases hip : i = p
    · subst hip
      simp only [setRealm_self, setRealm_nextId]
      exact hinv.realmIds i hactive
    · simp only [setRealm_of_ne hip, setRealm_nextId] at hi ⊢
      exact hinv.realmIds i hi
  intro i hi hmem
  by_cases hip : i = p
  · subst hip
    simp only [setRealm_self] at hmem ⊢
    have hold := hinv.unprivileged i hactive hmem
    exact (credCall_within hold.not_isRoot h).unprivileged hold
  · simp only [setRealm_of_ne hip] at hi hmem ⊢
    exact hinv.unprivileged i hi hmem

/-- Step lemma. -/
theorem step_inv {s : St ρ} {a : Act ρ} (hinv : Inv s) (hok : SpawnKeeps s a) :
    Inv (step s a).1 := by
  cases a with
  | spawn caller env path cfg =>
    cases caller with
    | none =>
      have hspawn : spawn env s.rm none path cfg =
          ((spawn env s.rm none path cfg).1, (spawn env s.rm none path cfg).2) := rfl
      exact hinv.grows (spawn_grows hspawn)
    | some p =>
      simp only [step]
      split
      · exact hinv
      rename_i parent hcaller
      obtain ⟨hactive, rfl⟩ := callerOf_some hcaller
      split
      · rename_i hspawn
        exact hinv.grows (spawn_grows hspawn)
      rename_i rm id hspawn
      split
      · -- the caller belongs to the lineage, so its spawn meets the condition
        rename_i hmem
        obtain ⟨hset, hkeep⟩ := hok hactive hmem
        exact spawn_member_inv hinv hactive hmem hset hkeep hspawn
      · exact hinv.grows (spawn_grows hspawn)
  | credCall p call =>
    simp only [step]
    split
    · exact hinv
    rename_i r hcaller
    obtain ⟨hactive, rfl⟩ := callerOf_some hcaller
    split
    · exact hinv
    · rename_i cred hcred
      exact credCall_inv hinv hactive hcred
  | create cfg allocs => exact hinv.grows create_grows
  | destroy id exitCode => exact hinv.grows (keepsRoots_destroy s.rm id exitCode).toKeepsCreds.grows
  | markTeardownComplete id => exact hinv.grows (keepsRoots_markTeardownComplete s.rm id).toKeepsCreds.grows
  | reap id => exact hinv.grows (keepsRoots_reap s.rm id).toKeepsCreds.grows

/-- Run lemma. -/
theorem run_inv {s : St ρ} {acts : List (Act ρ)} (hinv : Inv s)
    (hok : Lib.Along step SpawnKeeps s acts) : Inv (Lib.final step s acts) :=
  Lib.final_invariant_along (fun _ _ => step_inv) hinv hok

section Demo

/-- A statically linked image of 120 bytes, which are its one segment, at `0x400000`. -/
def demoImage : Lib.ByteMem := fun a =>
  match a with
  | 0 => 0x7f | 1 => 0x45 | 2 => 0x4c | 3 => 0x46
  | 16 => 2 | 18 => 62 | 32 => 64 | 54 => 56 | 56 => 1
  | 64 => 1 | 82 => 0x40 | 96 => 120 | 104 => 120 | 113 => 0x10
  | _ => 0

/-- Every file is that image, mode 0755, owned by root; nothing fails. -/
def demoEnv : SpawnEnv Unit where
  openFile _ := .ok ⟨demoImage, some ⟨0o755, 0, 0⟩, false⟩
  bufferOk _ := true
  framesOk _ _ := true
  createAllocs := ⟨true, true, true⟩
  openDevice _ _ := .ok ()
  vbusEndpoint := some ()
  tty0 := some 0
  unitOk := true

/-- A user's credentials. -/
def demoCred : ProcessCredentials :=
  { uid := 1000, gid := 1000, euid := 1000, egid := 1000, suid := 1000, sgid := 1000 }

/-- The realm table with one realm, of that user, under id 4 in slot 0. -/
def demoRealms : RealmManager Unit where
  realms i :=
    if i = 0 then { Realm.zero Unit with
      id := 4, active := true, rootPath := ['/'], cwdPath := ['/'], cred := demoCred }
    else Realm.zero Unit
  nextId := 5
  seq := 0

/-- That user spawns a shell. -/
def demoSpawn (cfg : SpawnConfig) : RealmManager Unit × Except Error Nat :=
  spawn demoEnv demoRealms (some 0) (some ['/', 's', 'h']) (some cfg)

theorem demo_noSetIdExec {r : Realm Unit} {path : Option Str} : NoSetIdExec demoEnv r path := by
  intro p _ norm _ file hopen
  cases hopen
  refine ⟨by decide, ?_⟩
  intro interpPath _ interp hopen
  cases hopen
  decide

theorem demo_inv : Inv (⟨demoRealms, [4]⟩ : St Unit) := by
  have hslot : ∀ i, (demoRealms.realms i).active → i = 0 := by decide +kernel
  refine ⟨?_, by decide, ?_⟩
  · intro i hi
    rw [hslot i hi]
    decide
  intro i hi _
  rw [hslot i hi]
  decide

end Demo

end Vespera.Exec
