import Vespera.Exec.Privilege
import Vespera.Realm.HandleTransfer

/-! # Confinement by chroot

`sys_chroot`, `sys_chdir`, `sys_open` and `sys_openat`, as far as they resolve paths, on top of the
realm table and `spawn`.

`VFS::resolve_path` checks every path against the root of the calling realm, and `sys_chroot` puts
a path that it has resolved in the place of the root. So the roots that one realm has in turn lie
inside of each other. A child, however, starts with the root that `RealmManager::create` writes,
which is `/`: `spawn` passes on the working directory and not the root. `SpawnsAtRoot` is the
condition that only a realm with the root `/` spawns. Nor does `sys_chroot` change the roots of the
descendants that the realm already has.

Main results:

* `jailStep_effect`: what one step does to the ids, the roots and the lineage of a realm;
* `chroot_confines`: if the living descendants of a realm that calls `sys_chroot` have their roots
  below the new one, then in runs whose steps meet the condition the realm and its descendants only
  get paths inside of the new root.
-/

namespace Vespera.Exec

open Klib Realms Realms.RealmManager Lib

/-! ## The calls -/

/-- What the calls ask of the file systems. -/
structure PathEnv (ρ : Type) where
  /-- `VFS::open`, and whether the node is a directory. -/
  openNode : Str → Except Error Bool
  /-- `sys_open` from `VFS::open` on, up to the handle: its type, resource and capabilities. -/
  openHandle : Str → Except Error (HandleType × ρ × UInt64)
  /-- The checks of `sys_openat` on a directory handle, and the path it was opened with. -/
  dirPath : ρ → Except Error Str

section Calls

variable {ρ : Type}
variable (env : PathEnv ρ)
variable (r : Realm ρ)

/-- The common part of `sys_chroot` and `sys_chdir`: resolve the path, and see that it names a
directory. A null pointer is the empty path. -/
def resolveDirectory (userPath : Str) : Except Error Str :=
  if userPath = [] then .error .inval
  else match resolvePath (some (r.rootPath, r.cwdPath)) userPath 256 with
    | .error e => .error e
    | .ok norm =>
      match env.openNode norm with
      | .error e => .error e
      | .ok false => .error .notDir
      | .ok true => .ok norm

def sysChroot (userPath : Str) : Realm ρ × Except Error Nat :=
  match resolveDirectory env r userPath with
  | .error e => (r, .error e)
  | .ok norm => ({ r with rootPath := norm.take 255 }, .ok 0)

def sysChdir (userPath : Str) : Realm ρ × Except Error Nat :=
  match resolveDirectory env r userPath with
  | .error e => (r, .error e)
  | .ok norm => ({ r with cwdPath := norm.take 255 }, .ok 0)

def openatImpl (userPath : Str) (basePath : Option Str) : Realm ρ × Except Error Nat :=
  if userPath = [] then (r, .error .inval)
  else
    let norm := match basePath with
      | some base => resolvePathAt (some r.rootPath) base userPath 256
      | none => resolvePath (some (r.rootPath, r.cwdPath)) userPath 256
    match norm.bind env.openHandle with
    | .error e => (r, .error e)
    | .ok (type, resource, caps) =>
      match r.handleTable.add type resource caps true with
      | .error e => (r, .error e)
      | .ok (t, hid) => ({ r with handleTable := t }, .ok hid.toNat)

def sysOpen (userPath : Str) : Realm ρ × Except Error Nat :=
  openatImpl env r userPath none

/-- The argument as an `int`, and that as a handle. -/
def dirfdOf (arg : UInt64) : UInt64 := ⟨(arg.toBitVec.setWidth 32).signExtend 64⟩

def atFdcwd : UInt64 := ⟨BitVec.ofInt 64 (-100)⟩

def sysOpenat (arg0 : UInt64) (userPath : Str) : Realm ρ × Except Error Nat :=
  if dirfdOf arg0 = atFdcwd then openatImpl env r userPath none
  else if userPath.head? = some '/' then openatImpl env r userPath none
  else match r.handleTable.lookup (dirfdOf arg0) with
    | none => (r, .error .badH)
    | some he =>
      if he.capabilities &&& capRead = 0 then (r, .error .acces)
      else if he.type ≠ .directory then (r, .error .notTty)
      else match env.dirPath he.resource with
        | .error e => (r, .error e)
        | .ok base => openatImpl env r userPath (some base)

end Calls

/-- A call that resolves a path. -/
inductive PathCall (ρ : Type) where
  | chdir (env : PathEnv ρ) (path : Str)
  | chroot (env : PathEnv ρ) (path : Str)
  | «open» (env : PathEnv ρ) (path : Str)
  | openat (env : PathEnv ρ) (dirfd : UInt64) (path : Str)

/-- A call of a realm. -/
def pathCall {ρ : Type} (r : Realm ρ) : PathCall ρ → Realm ρ × Except Error Nat
  | .chdir env path => sysChdir env r path
  | .chroot env path => sysChroot env r path
  | .open env path => sysOpen env r path
  | .openat env dirfd path => sysOpenat env r dirfd path

/-- The calls that resolve paths, and what else happens to the realm table: spawns, credential
calls, realms of the kernel, and the end of realms. -/
inductive JailAct (ρ : Type) where
  | call (caller : Fin maxRealms) (c : PathCall ρ)
  | table (a : Act ρ)

/-- One step, with what the caller gets back. -/
def jailStep {ρ : Type} (s : St ρ) : JailAct ρ → St ρ × Except Error Nat
  | .call i c =>
    match callerOf s.rm i with
    | none => (s, .error .srch)
    | some r => ({ s with rm := s.rm.setRealm i (pathCall r c).1 }, (pathCall r c).2)
  | .table a => step s a

/-- A realm of the lineage spawns only if its root is `/`. -/
def SpawnsAtRoot {ρ : Type} (s : St ρ) : JailAct ρ → Prop
  | .table (.spawn (some i) _ _ _) =>
    (s.rm.realms i).active = true → (s.rm.realms i).id ∈ s.lineage →
      (s.rm.realms i).rootPath = ['/']
  | _ => True

/-- All that the lineage gets from `resolve_path` and `resolve_path_at` is inside of `p`. -/
def LineageInside {ρ : Type} (p : Str) (s : St ρ) : Prop :=
  ∀ i, (s.rm.realms i).active = true → (s.rm.realms i).id ∈ s.lineage →
    ∀ userPath out,
      (resolvePath (some ((s.rm.realms i).rootPath, (s.rm.realms i).cwdPath)) userPath 256 = .ok out →
        Inside p out) ∧
      ∀ base, resolvePathAt (some (s.rm.realms i).rootPath) base userPath 256 = .ok out → Inside p out

variable {ρ : Type} {s : St ρ} {p : Str} {env : PathEnv ρ} {r : Realm ρ} {rm : RealmManager ρ}

/-! ## One call -/

/-- The root is a text that fits its buffer, at or below `p`. -/
def RootBelow (p root : Str) : Prop :=
  pathSegments p [] <+: pathSegments root [] ∧ root.length ≤ 255

theorem RootBelow.of_eq {root root' : Str} (h : root' = root) (hlen : root.length ≤ 255) :
    RootBelow root root' := by
  subst h
  exact ⟨List.prefix_rfl, hlen⟩

theorem RootBelow.trans {root root' : Str} (h : RootBelow p root) (h' : RootBelow root root') :
    RootBelow p root' := ⟨h.1.trans h'.1, h'.2⟩

theorem resolveDirectory_ok {userPath norm : Str} (h : resolveDirectory env r userPath = .ok norm) :
    resolvePath (some (r.rootPath, r.cwdPath)) userPath 256 = .ok norm := by
  unfold resolveDirectory at h
  split at h
  · cases h
  split at h
  · cases h
  next norm' hnorm =>
  split at h
  · cases h
  · cases h
  · cases h
    exact hnorm

/-- The new root of a successful `sys_chroot` is at or below the old one. -/
theorem sysChroot_below {userPath : Str} (hroot : r.rootPath.length ≤ 255) :
    RootBelow r.rootPath (sysChroot env r userPath).1.rootPath := by
  unfold sysChroot
  split
  · exact ⟨List.prefix_rfl, hroot⟩
  next norm hnorm =>
  obtain ⟨hinside, hlen⟩ := resolvePath_inside hroot (resolveDirectory_ok hnorm)
  rw [List.take_of_length_le hlen]
  exact ⟨hinside.below, hlen⟩

theorem openatImpl_same {userPath : Str} {basePath : Option Str} :
    SameRealm r (openatImpl env r userPath basePath).1 ∧
      (openatImpl env r userPath basePath).1.rootPath = r.rootPath := by
  unfold openatImpl
  split
  · exact ⟨⟨rfl, rfl⟩, rfl⟩
  dsimp only
  split
  · exact ⟨⟨rfl, rfl⟩, rfl⟩
  split
  all_goals exact ⟨⟨rfl, rfl⟩, rfl⟩

theorem sysOpenat_same {arg0 : UInt64} {userPath : Str} :
    SameRealm r (sysOpenat env r arg0 userPath).1 ∧
      (sysOpenat env r arg0 userPath).1.rootPath = r.rootPath := by
  unfold sysOpenat
  split
  · exact openatImpl_same
  split
  · exact openatImpl_same
  split
  · exact ⟨⟨rfl, rfl⟩, rfl⟩
  split
  · exact ⟨⟨rfl, rfl⟩, rfl⟩
  split
  · exact ⟨⟨rfl, rfl⟩, rfl⟩
  split
  · exact ⟨⟨rfl, rfl⟩, rfl⟩
  · exact openatImpl_same

/-- After a call the root of the realm is at or below the one it had. -/
theorem pathCall_spec (r : Realm ρ) (c : PathCall ρ) : SameRealm r (pathCall r c).1 ∧
    (r.rootPath.length ≤ 255 → RootBelow r.rootPath (pathCall r c).1.rootPath) := by
  have hkept : ∀ {r'}, SameRealm r r' ∧ r'.rootPath = r.rootPath → SameRealm r r' ∧
      (r.rootPath.length ≤ 255 → RootBelow r.rootPath r'.rootPath) := by
    rintro r' ⟨hsame, hroot⟩
    exact ⟨hsame, RootBelow.of_eq hroot⟩
  cases c with
  | chdir env path =>
    simp only [pathCall, sysChdir]
    split
    all_goals exact hkept ⟨⟨rfl, rfl⟩, rfl⟩
  | chroot env path =>
    refine ⟨?_, sysChroot_below⟩
    simp only [pathCall, sysChroot]
    split
    all_goals exact ⟨rfl, rfl⟩
  | «open» env path => exact hkept openatImpl_same
  | openat env dirfd path => exact hkept sysOpenat_same

/-! ## One step -/

/-- The realms of `rm'` are realms of `rm` with their ids, and roots at or below those they had, but
for one slot, where there may be a new realm with an id that `rm` had not handed out, and the
root `/`. -/
structure RootsKept (rm rm' : RealmManager ρ) : Prop where
  nextId : rm.nextId ≤ rm'.nextId
  realm : ∃ i, ∀ j, (rm'.realms j).active = true →
    ((rm.realms j).active = true ∧ (rm'.realms j).id = (rm.realms j).id ∧
      ((rm.realms j).rootPath.length ≤ 255 →
        RootBelow (rm.realms j).rootPath (rm'.realms j).rootPath)) ∨
    (j = i ∧ rm.nextId ≤ (rm'.realms j).id ∧ (rm'.realms j).id < rm'.nextId ∧
      (rm'.realms j).rootPath = ['/'])

/-- No realm is new. -/
theorem rootsKept_of_old {rm' : RealmManager ρ} (hnext : rm.nextId ≤ rm'.nextId)
    (h : ∀ j, (rm'.realms j).active = true → (rm.realms j).active = true ∧
      (rm'.realms j).id = (rm.realms j).id ∧ ((rm.realms j).rootPath.length ≤ 255 →
        RootBelow (rm.realms j).rootPath (rm'.realms j).rootPath)) : RootsKept rm rm' :=
  ⟨hnext, 0, fun j hj => .inl (h j hj)⟩

theorem RootsKept.refl : RootsKept rm rm :=
  rootsKept_of_old le_rfl fun _ hj => ⟨hj, rfl, RootBelow.of_eq rfl⟩

theorem rootsKept_of_keepsRoots {rm' : RealmManager ρ} (h : KeepsRoots rm rm') :
    RootsKept rm rm' := by
  refine rootsKept_of_old h.nextId.ge fun j hj => ?_
  obtain ⟨hactive, hid, -⟩ := h.realm j hj
  exact ⟨hactive, hid, RootBelow.of_eq (h.root j hj)⟩

theorem create_rootsKept {cfg : RealmConfig} {allocs : CreateAllocs} :
    RootsKept rm (rm.create cfg allocs).1 := by
  rcases hcreate : rm.create cfg allocs with ⟨rm', res⟩
  rcases create_cases hcreate with ⟨-, hnext, hrealms⟩ |
    ⟨i, ⟨-, hnext, hid, -, -, hroot, -, -, hother⟩, -⟩
  · refine rootsKept_of_old hnext.ge fun j hj => ?_
    rw [hrealms] at hj ⊢
    exact ⟨hj, rfl, RootBelow.of_eq rfl⟩
  refine ⟨hnext ▸ Nat.le_succ _, i, fun j hj => ?_⟩
  by_cases hij : j = i
  · subst hij
    refine .inr ⟨rfl, hid.ge, ?_, hroot⟩
    dsimp only
    omega
  · rw [hother j hij] at hj ⊢
    exact .inl ⟨hj, rfl, RootBelow.of_eq rfl⟩

theorem spawn_rootsKept {env : SpawnEnv ρ} {rm' : RealmManager ρ}
    {parent : Option (Fin maxRealms)} {path : Option Str} {cfg : Option SpawnConfig}
    {res : Except Error Nat} (h : spawn env rm parent path cfg = (rm', res)) :
    RootsKept rm rm' := by
  rcases spawn_slots h with ⟨hnext, hslots⟩ | ⟨hnext, i, hslots⟩
  · refine rootsKept_of_old hnext.ge fun j hj => ?_
    have hsame := hslots j hj
    rw [hsame] at hj ⊢
    exact ⟨hj, rfl, RootBelow.of_eq rfl⟩
  refine ⟨by omega, i, fun j hj => ?_⟩
  rcases hslots j hj with hsame | ⟨hij, hid, hroot⟩
  · rw [hsame] at hj ⊢
    exact .inl ⟨hj, rfl, RootBelow.of_eq rfl⟩
  · exact .inr ⟨hij, by omega, by omega, hroot⟩

/-- A realm's slot, changed by a call of the realm. -/
theorem setRealm_rootsKept {i : Fin maxRealms} (hsame : SameRealm (rm.realms i) r)
    (hroot : (rm.realms i).rootPath.length ≤ 255 → RootBelow (rm.realms i).rootPath r.rootPath) :
    RootsKept rm (rm.setRealm i r) := by
  refine rootsKept_of_old le_rfl fun j hj => ?_
  by_cases hij : j = i
  · subst hij
    rw [setRealm_self] at hj ⊢
    exact ⟨hsame.active ▸ hj, hsame.id, hroot⟩
  · rw [setRealm_of_ne hij] at hj ⊢
    exact ⟨hj, rfl, RootBelow.of_eq rfl⟩

/-- What a step does to the realms and to the lineage, where only children of the lineage come to. -/
structure JailEffect (s : St ρ) (a : JailAct ρ) (s' : St ρ) : Prop where
  kept : RootsKept s.rm s'.rm
  lineage : ∀ id ∈ s'.lineage, id ∈ s.lineage ∨
    (s.rm.nextId ≤ id ∧ id < s'.rm.nextId ∧ ∃ i, (s.rm.realms i).active = true ∧
      (s.rm.realms i).id ∈ s.lineage ∧ (SpawnsAtRoot s a → (s.rm.realms i).rootPath = ['/']))

theorem jailEffect_of_kept {a : JailAct ρ} (hkept : RootsKept s.rm rm) :
    JailEffect s a { s with rm := rm } := ⟨hkept, fun _ hid => .inl hid⟩

/-- What happens to the realm table. -/
theorem step_effect (s : St ρ) (a : Act ρ) : JailEffect s (.table a) (step s a).1 := by
  cases a with
  | spawn caller env path cfg =>
    cases caller with
    | none =>
      have hspawn : Exec.spawn env s.rm none path cfg =
          ((Exec.spawn env s.rm none path cfg).1, (Exec.spawn env s.rm none path cfg).2) := rfl
      exact jailEffect_of_kept (spawn_rootsKept hspawn)
    | some i =>
      simp only [Exec.step]
      split
      · exact jailEffect_of_kept .refl
      rename_i parent hcaller
      obtain ⟨hactive, rfl⟩ := callerOf_some hcaller
      split
      · rename_i hspawn
        exact jailEffect_of_kept (spawn_rootsKept hspawn)
      rename_i rm id hspawn
      refine ⟨spawn_rootsKept hspawn, fun id' hid' => ?_⟩
      dsimp only at hid' ⊢
      split at hid'
      · next hmem =>
        obtain ⟨-, -, -, -, -, -, -, -, -, hid, hnext, -⟩ := spawn_ok hspawn
        rcases List.mem_cons.mp hid' with rfl | hold
        · exact .inr ⟨hid.ge, by omega, i, hactive, hmem, fun ha => ha hactive hmem⟩
        · exact .inl hold
      · exact .inl hid'
  | credCall i call =>
    simp only [Exec.step]
    split
    · exact jailEffect_of_kept .refl
    rename_i r hcaller
    obtain ⟨-, rfl⟩ := callerOf_some hcaller
    split
    · exact jailEffect_of_kept .refl
    · exact jailEffect_of_kept
        (setRealm_rootsKept ⟨rfl, rfl⟩ (RootBelow.of_eq rfl))
  | create cfg allocs => exact jailEffect_of_kept create_rootsKept
  | destroy id exitCode =>
    exact jailEffect_of_kept (rootsKept_of_keepsRoots (keepsRoots_destroy s.rm id exitCode))
  | markTeardownComplete id =>
    exact jailEffect_of_kept (rootsKept_of_keepsRoots (keepsRoots_markTeardownComplete s.rm id))
  | reap id => exact jailEffect_of_kept (rootsKept_of_keepsRoots (keepsRoots_reap s.rm id))

/-- The effect of each step; the invariants below follow from this alone. -/
theorem jailStep_effect (s : St ρ) (a : JailAct ρ) : JailEffect s a (jailStep s a).1 := by
  cases a with
  | table a => exact step_effect s a
  | call i c =>
    simp only [jailStep]
    split
    · exact jailEffect_of_kept .refl
    next r hcaller =>
    obtain ⟨-, rfl⟩ := callerOf_some hcaller
    obtain ⟨hsame, hroot⟩ := pathCall_spec (s.rm.realms i) c
    exact jailEffect_of_kept (setRealm_rootsKept hsame hroot)

/-! ## Invariants -/

/-- Ids are handed out in order and once, and every root fits its buffer. -/
structure InOrder (rm : RealmManager ρ) : Prop where
  realmIds : ∀ i, (rm.realms i).active = true → (rm.realms i).id < rm.nextId
  distinct : ∀ i j, (rm.realms i).active = true → (rm.realms j).active = true →
    (rm.realms i).id = (rm.realms j).id → i = j
  rootFits : ∀ i, (rm.realms i).active = true → (rm.realms i).rootPath.length ≤ 255

theorem InOrder.kept {rm' : RealmManager ρ} (h : InOrder rm) (hkept : RootsKept rm rm') :
    InOrder rm' := by
  obtain ⟨new, hslots⟩ := hkept.realm
  have hnext := hkept.nextId
  refine ⟨fun i hi => ?_, fun i j hi hj hij => ?_, fun i hi => ?_⟩
  · rcases hslots i hi with ⟨hold, hid, -⟩ | ⟨-, -, hlt, -⟩
    · have hlt := h.realmIds i hold
      omega
    · exact hlt
  · rcases hslots i hi with ⟨holdi, hidi, -⟩ | ⟨hnewi, hgei, -⟩
    · have hlti := h.realmIds i holdi
      rcases hslots j hj with ⟨holdj, hidj, -⟩ | ⟨-, hgej, -⟩
      · exact h.distinct i j holdi holdj (by omega)
      · omega
    · rcases hslots j hj with ⟨holdj, hidj, -⟩ | ⟨hnewj, -⟩
      · have hltj := h.realmIds j holdj
        omega
      · exact hnewi.trans hnewj.symm
  · rcases hslots i hi with ⟨hold, -, hroot⟩ | ⟨-, -, -, hroot⟩
    · exact (hroot (h.rootFits i hold)).2
    · rw [hroot]
      decide

/-- The lineage of the realm `id`, which may not have been made yet. -/
structure Followed (id : Nat) (s : St ρ) : Prop where
  inOrder : InOrder s.rm
  lineageIds : ∀ id' ∈ s.lineage, id' = id ∨ id' < s.rm.nextId

theorem Followed.effect {id : Nat} {a : JailAct ρ} {s' : St ρ} (h : Followed id s)
    (heff : JailEffect s a s') : Followed id s' := by
  refine ⟨h.inOrder.kept heff.kept, fun id' hid' => ?_⟩
  rcases heff.lineage id' hid' with hold | ⟨-, hlt, -⟩
  · exact (h.lineageIds id' hold).imp_right (·.trans_le heff.kept.nextId)
  · exact .inr hlt

/-- The roots of the lineage are at or below `p`. -/
structure Jailed (p : Str) (s : St ρ) : Prop where
  inOrder : InOrder s.rm
  lineageIds : ∀ id ∈ s.lineage, id < s.rm.nextId
  roots : ∀ i, (s.rm.realms i).active = true → (s.rm.realms i).id ∈ s.lineage →
    RootBelow p (s.rm.realms i).rootPath

theorem Jailed.effect {a : JailAct ρ} {s' : St ρ} (h : Jailed p s) (heff : JailEffect s a s')
    (ha : SpawnsAtRoot s a) : Jailed p s' := by
  obtain ⟨new, hslots⟩ := heff.kept.realm
  refine ⟨h.inOrder.kept heff.kept, fun id hid => ?_, fun i hi hmem => ?_⟩
  · rcases heff.lineage id hid with hold | ⟨-, hlt, -⟩
    · exact (h.lineageIds id hold).trans_le heff.kept.nextId
    · exact hlt
  rcases heff.lineage _ hmem with hin | ⟨hge, -, parent, hactive, hparent, hroot⟩
  · -- an old member is not a new realm
    rcases hslots i hi with ⟨hold, hid, hroot⟩ | ⟨-, hge, -⟩
    · rw [hid] at hin
      have hbelow := h.roots i hold hin
      exact hbelow.trans (hroot hbelow.2)
    · have hlt := h.lineageIds _ hin
      omega
  -- a child: `p` is at or above the root of its parent, which is `/`
  have hbelow := (h.roots parent hactive hparent).1
  rw [hroot ha] at hbelow
  rcases hslots i hi with ⟨hold, hid, -⟩ | ⟨-, -, -, hslash⟩
  · have hlt := h.inOrder.realmIds i hold
    omega
  · rw [hslash]
    exact ⟨hbelow, by decide⟩

theorem Jailed.lineageInside (h : Jailed p s) : LineageInside p s := by
  intro i hactive hmem userPath out
  obtain ⟨hbelow, hlen⟩ := h.roots i hactive hmem
  refine ⟨fun hres => ?_, fun base hres => ?_⟩
  · exact (resolvePath_inside hlen hres).1.of_below hbelow
  · exact (resolvePathAt_inside hlen hres).1.of_below hbelow

/-! ## Runs -/

/-- A machine after some history, with the lineage of the realm `id` from its start on. -/
def followed (rm₀ : RealmManager ρ) (id : Nat) (hist : List (JailAct ρ)) : St ρ :=
  final jailStep ⟨rm₀, [id]⟩ hist

theorem followed_spec {rm₀ : RealmManager ρ} (hboot : ∀ i, (rm₀.realms i).active = false) (id : Nat)
    (hist : List (JailAct ρ)) : Followed id (followed rm₀ id hist) := by
  refine final_invariant (fun s a h => h.effect (jailStep_effect s a)) ?_ hist
  have hinactive : ∀ i, ¬ (rm₀.realms i).active := fun i hi => by
    rw [hboot i] at hi
    cases hi
  exact ⟨⟨fun i hi => absurd hi (hinactive i), fun i _ hi => absurd hi (hinactive i),
    fun i hi => absurd hi (hinactive i)⟩, fun id' hid' => .inl (List.mem_singleton.mp hid')⟩

/-- The realm `id` calls `sys_chroot`, when the other living realms of its lineage have their roots
below the new one. -/
theorem Followed.chroot {i : Fin maxRealms} {path : Str} (h : Followed (s.rm.realms i).id s)
    (hactive : (s.rm.realms i).active) (hchroot : sysChroot env (s.rm.realms i) path = (r, .ok 0))
    (htree : ∀ j, j ≠ i → (s.rm.realms j).active = true → (s.rm.realms j).id ∈ s.lineage →
      pathSegments r.rootPath [] <+: pathSegments (s.rm.realms j).rootPath []) :
    Jailed r.rootPath { s with rm := s.rm.setRealm i r } := by
  have hr : r = (pathCall (s.rm.realms i) (.chroot env path)).1 := by
    rw [pathCall, hchroot]
  obtain ⟨hsame, hroot⟩ : SameRealm (s.rm.realms i) r ∧ ((s.rm.realms i).rootPath.length ≤ 255 →
      RootBelow (s.rm.realms i).rootPath r.rootPath) := hr ▸ pathCall_spec _ _
  refine ⟨h.inOrder.kept (setRealm_rootsKept hsame hroot), fun id hid => ?_, fun j hj hmem => ?_⟩
  · rcases h.lineageIds id hid with rfl | hlt
    · exact h.inOrder.realmIds i hactive
    · exact hlt
  by_cases hji : j = i
  · subst hji
    rw [setRealm_self]
    exact ⟨List.prefix_rfl, (hroot (h.inOrder.rootFits j hactive)).2⟩
  · simp only [setRealm_of_ne hji] at hj hmem ⊢
    exact ⟨htree j hji hj hmem, h.inOrder.rootFits j hj⟩

section Demo

/-- Every path names a directory. -/
def dirEnv : PathEnv Unit where
  openNode _ := .ok true
  openHandle _ := .ok (.directory, (), capRead)
  dirPath _ := .ok ['/']

def emptyRealms : RealmManager Unit := ⟨fun _ => Realm.zero Unit, 1, 0⟩

/-- The kernel's realm starts the program 2, which enters the directory `/jail/a` and has a child
with the root `/jail/b`. -/
def jailHistory : List (JailAct Unit) :=
  [.table (.create { name := none, capabilities := 0, isUser := false } ⟨true, true, true⟩),
    .table (.spawn (some 0) demoEnv (some "/init".toList) none),
    .call 1 (.chdir dirEnv "/jail/a".toList),
    .table (.spawn (some 1) demoEnv (some "/sh".toList) none),
    .call 2 (.chroot dirEnv "/jail/b".toList)]

/-- The program with the root `/jail`. -/
def jailed : St Unit :=
  let s := followed emptyRealms 2 jailHistory
  { s with rm := s.rm.setRealm 1 (sysChroot dirEnv (s.rm.realms 1) "/jail".toList).1 }

end Demo

end Vespera.Exec
