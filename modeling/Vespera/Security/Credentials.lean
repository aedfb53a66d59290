import Mathlib.Data.UInt
import Vespera.Klib.Result
import Vespera.Lib.Run

/-! # Process credentials

The credential calls of `kernel/security/credentials.cpp` and
`kernel/sys/syscalls/sys_uid.cpp`, and the set-ID rule that loading an image
applies (`kernel/security/setuid_exec.h`).

The source writes every credential call twice, once for user ids and once for
group ids. Here each pair is one function of an `IdKind`, and the two system
calls are its instances.

Main results:

* `credCall_within`: a credential call by a caller that is not root leaves it
  with ids it already had;
* `cred_calls_gain_nothing`: so do sequences of calls by an unprivileged realm,
  and a realm that has given up root with `setuid` does not get it back;
* `applyExecCredentials_within`: so does loading an image without set-ID bits.
-/

namespace Vespera.Security

open Klib

/-- `struct process_credentials`; the defaults are root. -/
structure ProcessCredentials where
  uid : UInt32 := 0
  gid : UInt32 := 0
  euid : UInt32 := 0
  egid : UInt32 := 0
  suid : UInt32 := 0
  sgid : UInt32 := 0
deriving Repr, DecidableEq

/-- Which of the two id triples a call works on. -/
inductive IdKind where
  | user
  | group
deriving Repr, DecidableEq

namespace ProcessCredentials

variable (c : ProcessCredentials)

/-- The real id of a kind. -/
def real : IdKind → UInt32
  | .user => c.uid
  | .group => c.gid

/-- The effective id of a kind. -/
def effective : IdKind → UInt32
  | .user => c.euid
  | .group => c.egid

/-- The saved id of a kind. -/
def saved : IdKind → UInt32
  | .user => c.suid
  | .group => c.sgid

/-- Replace one triple. -/
def setIds (k : IdKind) (r e s : UInt32) : ProcessCredentials :=
  match k with
  | .user => { c with uid := r, euid := e, suid := s }
  | .group => { c with gid := r, egid := e, sgid := s }

/-- The three ids of a kind. -/
def ids (k : IdKind) : List UInt32 := [c.real k, c.effective k, c.saved k]

variable {c}

@[simp] theorem ids_setIds {c : ProcessCredentials} {k : IdKind} {r e s : UInt32} :
    (c.setIds k r e s).ids k = [r, e, s] := by
  cases k <;> rfl

theorem ids_setIds_of_ne {c : ProcessCredentials} {k l : IdKind} (h : l ≠ k) {r e s : UInt32} :
    (c.setIds k r e s).ids l = c.ids l := by
  cases k <;> cases l <;> first | rfl | exact absurd rfl h

end ProcessCredentials

open ProcessCredentials

/-! ## The checks -/

variable (cred : ProcessCredentials)

def isRoot : Bool := cred.euid == 0

/-- `may_set_uid` and `may_set_gid`. -/
def maySetId (k : IdKind) (cred : ProcessCredentials) (target : UInt32) : Bool :=
  isRoot cred || target == cred.real k || target == cred.effective k || target == cred.saved k

/-- `static_cast<u32>(-1)`: leave this id alone. -/
def keepId : UInt32 := 0xFFFFFFFF

/-- The id a call leaves in place of `d` when it is passed `v`. -/
def orKeep (v d : UInt32) : UInt32 := if v ≠ keepId then v else d

/-- The lambda `valid` that `sys_setres[ug]id` and `set_full_credentials` share. -/
def validId (k : IdKind) (old : ProcessCredentials) (v : UInt32) : Bool :=
  v == keepId || maySetId k old v

/-- `set_full_credentials`, on the credentials of the current realm. -/
def setFullCredentials (old c : ProcessCredentials) : Except Error ProcessCredentials :=
  if !validId .user old c.uid || !validId .user old c.euid || !validId .user old c.suid then
    .error .perm
  else if !validId .group old c.gid || !validId .group old c.egid || !validId .group old c.sgid then
    .error .perm
  else .ok c

/-- `set_current_euid` and `set_current_egid`. -/
def setCurrentEffectiveId (k : IdKind) (old : ProcessCredentials) (v : UInt32) :
    Except Error ProcessCredentials :=
  if !maySetId k old v then .error .perm
  else .ok (old.setIds k (old.real k) v (old.saved k))

/-! ## The system calls -/

/-- `sys_setuid` and `sys_setgid`. -/
def sysSetid (k : IdKind) (cred : ProcessCredentials) (id : UInt32) :
    Except Error ProcessCredentials :=
  if isRoot cred then setFullCredentials cred (cred.setIds k id id id)
  else if !maySetId k cred id then .error .perm
  else setCurrentEffectiveId k cred id

/-- `sys_setreuid` and `sys_setregid`. -/
def sysSetreid (k : IdKind) (old : ProcessCredentials) (r e : UInt32) :
    Except Error ProcessCredentials :=
  if r ≠ keepId ∧ !isRoot old ∧ r ≠ old.real k ∧ r ≠ old.effective k then .error .perm
  else if e ≠ keepId ∧ !isRoot old ∧ e ≠ old.real k ∧ e ≠ old.effective k ∧ e ≠ old.saved k then
    .error .perm
  else
    let effective := orKeep e (old.effective k)
    let saved :=
      if r ≠ keepId ∨ (e ≠ keepId ∧ e ≠ old.real k) then effective else old.saved k
    setFullCredentials old (old.setIds k (orKeep r (old.real k)) effective saved)

/-- `sys_setresuid` and `sys_setresgid`. -/
def sysSetresid (k : IdKind) (old : ProcessCredentials) (r e s : UInt32) :
    Except Error ProcessCredentials :=
  if !validId k old r || !validId k old e || !validId k old s then .error .perm
  else
    setFullCredentials old (old.setIds k
      (orKeep r (old.real k)) (orKeep e (old.effective k)) (orKeep s (old.saved k)))

/-- The credential system calls with their 64-bit arguments, which the calls
truncate to `u32`. -/
inductive CredCall where
  | setuid (uid : UInt64)
  | setreuid (ruid euid : UInt64)
  | setresuid (ruid euid suid : UInt64)
  | setgid (gid : UInt64)
  | setregid (rgid egid : UInt64)
  | setresgid (rgid egid sgid : UInt64)
deriving Repr, DecidableEq

/-- Serve one credential call for a realm with credentials `cred`. -/
def credCall : CredCall → Except Error ProcessCredentials
  | .setuid u => sysSetid .user cred u.toUInt32
  | .setreuid r e => sysSetreid .user cred r.toUInt32 e.toUInt32
  | .setresuid r e s => sysSetresid .user cred r.toUInt32 e.toUInt32 s.toUInt32
  | .setgid g => sysSetid .group cred g.toUInt32
  | .setregid r e => sysSetreid .group cred r.toUInt32 e.toUInt32
  | .setresgid r e s => sysSetresid .group cred r.toUInt32 e.toUInt32 s.toUInt32

/-! ## Ids never grow without root -/

/-- Every id of `c'` is an id of the same kind of `c`. -/
def IdsWithin (c' c : ProcessCredentials) : Prop := ∀ k, ∀ i ∈ c'.ids k, i ∈ c.ids k

/-- None of the three user ids is root. -/
def Unprivileged (c : ProcessCredentials) : Prop := (0 : UInt32) ∉ c.ids .user

instance (c : ProcessCredentials) : Decidable (Unprivileged c) := by
  unfold Unprivileged; infer_instance

variable {c : ProcessCredentials}

/-- `IdsWithin` kind by kind. -/
theorem idsWithin_iff {c' : ProcessCredentials} : IdsWithin c' c ↔
      (∀ i ∈ c'.ids .user, i ∈ c.ids .user) ∧ (∀ i ∈ c'.ids .group, i ∈ c.ids .group) := by
  constructor
  · intro h
    exact ⟨h .user, h .group⟩
  rintro ⟨hu, hg⟩ k
  cases k
  · exact hu
  · exact hg

-- the list instance by name: the search may also enumerate all of `UInt32`
instance (c' c : ProcessCredentials) : Decidable (IdsWithin c' c) :=
  @decidable_of_iff _ _ idsWithin_iff.symm
    (@instDecidableAnd _ _ (List.decidableBAll (· ∈ c.ids .user) (c'.ids .user))
      (List.decidableBAll (· ∈ c.ids .group) (c'.ids .group)))

theorem IdsWithin.refl (c : ProcessCredentials) : IdsWithin c c := fun _ _ h => h

theorem IdsWithin.trans {a b : ProcessCredentials} (hab : IdsWithin a b) (hbc : IdsWithin b c) :
    IdsWithin a c := fun k i hi => hbc k i (hab k i hi)

theorem IdsWithin.unprivileged {c' : ProcessCredentials} (h : IdsWithin c' c)
    (hc : Unprivileged c) : Unprivileged c' := fun h0 => hc (h .user 0 h0)

theorem Unprivileged.not_isRoot (h : Unprivileged c) : isRoot c = false := by
  have hne : c.euid ≠ 0 := by
    intro h0
    exact h (by simp [ids, effective, h0])
  simpa [isRoot] using hne

/-- Replacing one triple by ids of that triple keeps all ids. -/
theorem setIds_within {k : IdKind} {r e s : UInt32}
    (hr : r ∈ c.ids k) (he : e ∈ c.ids k) (hs : s ∈ c.ids k) : IdsWithin (c.setIds k r e s) c := by
  intro l i hi
  by_cases hl : l = k
  · subst hl
    simp only [ids_setIds, List.mem_cons, List.not_mem_nil, or_false] at hi
    rcases hi with rfl | rfl | rfl
    · exact hr
    · exact he
    · exact hs
  · rwa [ids_setIds_of_ne hl] at hi

theorem setFullCredentials_ok {old c' : ProcessCredentials}
    (h : setFullCredentials old c = .ok c') : c' = c := by
  unfold setFullCredentials at h
  split_ifs at h
  cases h
  rfl

theorem maySetId_mem {k : IdKind} {v : UInt32}
    (hroot : isRoot c = false) (h : maySetId k c v) : v ∈ c.ids k := by
  simpa [maySetId, hroot, ids, or_assoc] using h

theorem orKeep_mem {v d : UInt32} {l : List UInt32} (hd : d ∈ l) (hv : v ≠ keepId → v ∈ l) :
    orKeep v d ∈ l := by
  unfold orKeep
  split
  · exact hv ‹_›
  · exact hd

section

variable {k : IdKind} {c c' : ProcessCredentials}

section

variable (hroot : isRoot c = false)

include hroot

theorem sysSetid_within {id : UInt32} (h : sysSetid k c id = .ok c') : IdsWithin c' c := by
  simp only [sysSetid, hroot, Bool.false_eq_true, if_false] at h
  split_ifs at h with hmay
  have hid : id ∈ c.ids k := maySetId_mem hroot (by simpa using hmay)
  simp only [setCurrentEffectiveId, hmay] at h
  cases h
  exact setIds_within (by simp [ids]) hid (by simp [ids])

theorem sysSetreid_within {r e : UInt32} (h : sysSetreid k c r e = .ok c') : IdsWithin c' c := by
  unfold sysSetreid at h
  split at h
  · cases h
  rename_i hr
  split at h
  · cases h
  rename_i he
  simp only [hroot, Bool.not_false, true_and, not_and, ne_eq, not_not] at hr he
  have := setFullCredentials_ok h
  subst this
  have hreal : orKeep r (c.real k) ∈ c.ids k := by
    apply orKeep_mem (by simp [ids])
    intro hk
    simp only [ids, List.mem_cons, List.not_mem_nil, or_false]
    tauto
  -- the new effective id may also become the saved one
  have heff : orKeep e (c.effective k) ∈ c.ids k := by
    apply orKeep_mem (by simp [ids])
    intro hk
    simp only [ids, List.mem_cons, List.not_mem_nil, or_false]
    tauto
  refine setIds_within hreal heff ?_
  split
  · exact heff
  · simp [ids]

theorem sysSetresid_within {r e s : UInt32}
    (h : sysSetresid k c r e s = .ok c') : IdsWithin c' c := by
  unfold sysSetresid at h
  split at h
  · cases h
  rename_i hvalid
  have := setFullCredentials_ok h
  subst this
  -- an argument other than -1 passed the check against the old ids
  have hpick : ∀ v, validId k c v → v ≠ keepId → v ∈ c.ids k := by
    intro v hv hk
    exact maySetId_mem hroot (by simpa [validId, hk] using hv)
  simp only [Bool.or_eq_true, Bool.not_eq_true', not_or, Bool.not_eq_false] at hvalid
  obtain ⟨⟨hr, he⟩, hs⟩ := hvalid
  exact setIds_within (orKeep_mem (by simp [ids]) (hpick r hr))
    (orKeep_mem (by simp [ids]) (hpick e he)) (orKeep_mem (by simp [ids]) (hpick s hs))

/-- A caller that is not root keeps within its own ids. -/
theorem credCall_within {call : CredCall} (h : credCall c call = .ok c') : IdsWithin c' c := by
  cases call with
  | setuid | setgid => exact sysSetid_within hroot h
  | setreuid | setregid => exact sysSetreid_within hroot h
  | setresuid | setresgid => exact sysSetresid_within hroot h

end

end

/-! ## Sequences of calls -/

/-- One call of a realm; a call that fails leaves the credentials as they are. -/
def credStep (call : CredCall) : ProcessCredentials × Except Error Unit :=
  match credCall cred call with
  | .error e => (cred, .error e)
  | .ok cred => (cred, .ok ())

section Sequences

variable {c c0 : ProcessCredentials}

/-- Step lemma: an unprivileged realm stays within the ids it started with. -/
theorem credStep_within (hc0 : Unprivileged c0) (call : CredCall) (h : IdsWithin c c0) :
    IdsWithin (credStep c call).1 c0 := by
  have hroot : isRoot c = false := (h.unprivileged hc0).not_isRoot
  unfold credStep
  split
  · exact h
  · next c' hcall => exact (credCall_within hroot hcall).trans h

/-- Run lemma. -/
theorem final_credStep_within (hc0 : Unprivileged c0) (calls : List CredCall) :
    IdsWithin (Lib.final credStep c0 calls) c0 :=
  @Lib.final_invariant _ _ _ credStep (IdsWithin · c0) (fun _ => credStep_within hc0) c0
    (.refl c0) calls

/-- `setuid` by root sets all three user ids, to the low half of its argument. -/
theorem setuid_by_root {u : UInt64} {c' : ProcessCredentials} (hroot : isRoot c)
    (h : credCall c (.setuid u) = .ok c') :
    c'.ids .user = [u.toUInt32, u.toUInt32, u.toUInt32] := by
  have h : sysSetid .user c u.toUInt32 = .ok c' := h
  unfold sysSetid at h
  rw [if_pos hroot] at h
  rw [setFullCredentials_ok h, ids_setIds]

/-- Calls of an unprivileged realm gain it no id; and after a `setuid` by root, with an argument
whose low half is not 0, the realm is never root again. -/
theorem cred_calls_gain_nothing :
    (∀ c calls, Unprivileged c → IdsWithin (Lib.final credStep c calls) c) ∧
    ∀ c c' u calls, isRoot c = true → u.toUInt32 ≠ 0 → credCall c (.setuid u) = .ok c' →
      (Lib.final credStep c' calls).euid ≠ 0 := by
  refine ⟨fun c calls hc => final_credStep_within hc calls, ?_⟩
  intro c c' u calls hroot hu hcall heuid
  have hids := setuid_by_root hroot hcall
  have hc' : Unprivileged c' := by
    unfold Unprivileged
    rw [hids]
    simp [Ne.symm hu]
  have hfinal := (final_credStep_within hc' calls).unprivileged hc'
  have hnot := hfinal.not_isRoot
  simp [isRoot, heuid] at hnot

/-- A user with a saved id of another user, and a daemon that gives up root. -/
theorem cred_calls_gain_nothing_applied :
    IdsWithin (Lib.final credStep ⟨1000, 100, 1000, 100, 1001, 100⟩
      [.setreuid 1001 1001, .setuid 0, .setresuid 0xFFFFFFFFFFFFFFFF 0 0])
      ⟨1000, 100, 1000, 100, 1001, 100⟩ ∧
    (Lib.final credStep ⟨1000, 0, 1000, 0, 1000, 0⟩ [.setuid 0, .setreuid 0 0]).euid ≠ 0 := by
  constructor
  · exact cred_calls_gain_nothing.1 _ _ (by decide)
  · exact cred_calls_gain_nothing.2 {} ⟨1000, 0, 1000, 0, 1000, 0⟩ 1000 _ rfl (by decide) rfl

/-- An argument of `setuid` that is not 0, but whose low half is: the realm is still root. -/
theorem setuid_high_half :
    (0x100000000 : UInt64) ≠ 0 ∧ isRoot {} = true ∧
      (credCall {} (.setuid 0x100000000)).toOption = some {} ∧
      (Lib.final credStep {} [.setuid 0x100000000]).euid = 0 := by
  decide

end Sequences

/-! ## Loading an image -/

/-- The fields of `struct stat` that `apply_exec_credentials` reads. -/
structure Stat where
  mode : UInt32
  uid : UInt32
  gid : UInt32
deriving Repr, DecidableEq

/-- `S_ISUID` and `S_ISGID`. -/
def sIsuid : UInt32 := 0o4000
def sIsgid : UInt32 := 0o2000

/-- A file whose mode has neither set-ID bit; a file that cannot be stat'ed
passes no ids on. -/
def NoSetId (st : Option Stat) : Prop := ∀ s ∈ st, s.mode &&& sIsuid = 0 ∧ s.mode &&& sIsgid = 0

instance (st : Option Stat) : Decidable (NoSetId st) := by
  unfold NoSetId; infer_instance

/-- `apply_exec_credentials`; `none` when the node has no `stat` or it fails. -/
def applyExecCredentials : Option Stat → ProcessCredentials
  | none => cred
  | some st =>
    let cred :=
      if st.mode &&& sIsuid ≠ 0 then cred.setIds .user cred.uid st.uid st.uid
      else cred.setIds .user cred.uid cred.euid cred.euid
    if st.mode &&& sIsgid ≠ 0 then cred.setIds .group cred.gid st.gid st.gid
    else cred.setIds .group cred.gid cred.egid cred.egid

theorem applyExecCredentials_of_noSetId {cred : ProcessCredentials} {st : Stat}
    (h : NoSetId (some st)) :
    applyExecCredentials cred (some st) =
      { cred with suid := cred.euid, sgid := cred.egid } := by
  obtain ⟨hu, hg⟩ := h st rfl
  simp [applyExecCredentials, hu, hg, setIds]

/-- The real ids survive a load. -/
theorem applyExecCredentials_real {cred : ProcessCredentials} {st : Option Stat} {k : IdKind} :
    (applyExecCredentials cred st).real k = cred.real k := by
  cases st with
  | none => rfl
  | some st =>
    unfold applyExecCredentials
    cases k <;> dsimp only <;> split_ifs <;> rfl

theorem applyExecCredentials_within {cred : ProcessCredentials} {st : Option Stat}
    (h : NoSetId st) : IdsWithin (applyExecCredentials cred st) cred := by
  cases st with
  | none => exact IdsWithin.refl cred
  | some st =>
    rw [applyExecCredentials_of_noSetId h, idsWithin_iff]
    simp [ids, real, effective, saved]

end Vespera.Security
