import Vespera.Exec.Privilege
import Vespera.Realm.SeqCounter

/-! # Sessions and process groups

`create_session` and `set_pgid` of `kernel/jobctl/jobctl.cpp`, on top of the realm table and
`spawn`, which puts each new realm into a group of its own.

`set_pgid` lets a realm join a group of its own session only. `create_session` takes its caller to
a new session, under the caller's own id as a group: if other realms are in that group, they stay
behind in the old session. `LeadsAlone` is the condition that there are none.

The invariant is `Grouped`. It also speaks of slots that are not active: a `create` that runs out
of memory leaves its slot active with the group and session of the slot's last realm.

Main results:

* `Grouped.step`: each step that meets the condition keeps the invariant;
* `groups_iff`: in runs of spawns and calls, groups stay inside of sessions exactly if every step
  meets the condition.
-/

namespace Vespera.Exec

open Klib Lib Realms Realms.RealmManager

variable {ρ : Type}

/-! ## The calls -/

def createSession (rm : RealmManager ρ) (id : Nat) : RealmManager ρ × Except Error Nat :=
  match rm.findId id with
  | none => (rm, .error .srch)
  | some i =>
    let r := rm.realms i
    if r.sid = r.id then (rm, .error .perm)
    else (rm.setRealm i { r with controllingTty := none, sid := r.id, pgid := r.id }, .ok r.id)

/-- The loop of `set_pgid`: it looks up the ids 1 to 64. -/
def groupInSession (rm : RealmManager ρ) (sid pgid : Nat) : Bool :=
  (List.range maxRealms).any fun n =>
    (rm.findId (n + 1)).any fun i => (rm.realms i).sid == sid && (rm.realms i).pgid == pgid

def setPgid (rm : RealmManager ρ) (callerId targetId desiredPgid : Nat) :
    RealmManager ρ × Except Error Nat :=
  match rm.findId callerId, rm.findId targetId with
  | some c, some t =>
    let caller := rm.realms c
    let target := rm.realms t
    if target.sid = target.id then (rm, .error .perm)
    else if target.sid ≠ caller.sid then (rm, .error .perm)
    else if desiredPgid ≠ target.id ∧ !groupInSession rm caller.sid desiredPgid then
      (rm, .error .perm)
    else (rm.setRealm t { target with pgid := desiredPgid }, .ok 0)
  | _, _ => (rm, .error .srch)

/-- Spawns, and calls of job control. -/
inductive JobAct (ρ : Type) where
  | spawn (caller : Option (Fin maxRealms)) (env : SpawnEnv ρ) (path : Option Str)
      (cfg : Option SpawnConfig)
  | createSession (id : Nat)
  | setPgid (callerId targetId desiredPgid : Nat)

/-- One step, with the answer. The calls of job control look realms up with `get`, which does not
return while the table is being written. -/
def jobStep (rm : RealmManager ρ) : JobAct ρ → RealmManager ρ × Option (Except Error Nat)
  | .spawn caller env path cfg =>
    if caller.all fun p => (rm.realms p).active then
      let r := spawn env rm caller path cfg
      (r.1, some r.2)
    else (rm, none)
  | .createSession id =>
    if rm.writing then (rm, none)
    else
      let r := createSession rm id
      (r.1, some r.2)
  | .setPgid callerId targetId desiredPgid =>
    if rm.writing then (rm, none)
    else
      let r := setPgid rm callerId targetId desiredPgid
      (r.1, some r.2)

/-- A group is in one session, and the leader of a session is in the group of its own id. -/
structure GroupsInSessions (rm : RealmManager ρ) : Prop where
  oneSession : ∀ i j, (rm.realms i).active = true → (rm.realms j).active = true →
    (rm.realms i).pgid = (rm.realms j).pgid → (rm.realms i).pgid ≠ 0 →
      (rm.realms i).sid = (rm.realms j).sid
  leader : ∀ i, (rm.realms i).active = true → (rm.realms i).sid = (rm.realms i).id →
    (rm.realms i).pgid = (rm.realms i).id

/-- A realm that makes a session is alone in the group of its id. -/
def LeadsAlone (rm : RealmManager ρ) : JobAct ρ → Prop
  | .createSession id => rm.writing = false → ∀ i, rm.findId id = some i →
      (rm.realms i).sid ≠ id → ∀ j, j ≠ i → (rm.realms j).active = true → (rm.realms j).pgid ≠ id
  | _ => True

instance (rm : RealmManager ρ) (a : JobAct ρ) : Decidable (LeadsAlone rm a) := by
  cases a <;> unfold LeadsAlone <;> infer_instance

/-! ## The invariant -/

/-- What the calls and `spawn` keep. -/
structure Grouped (rm : RealmManager ρ) : Prop extends GroupsInSessions rm where
  distinct : ∀ i j, (rm.realms i).active = true → (rm.realms j).active = true →
    (rm.realms i).id = (rm.realms j).id → i = j
  ids : ∀ i, (rm.realms i).active = true → 0 < (rm.realms i).id ∧ (rm.realms i).id < rm.nextId
  bounds : ∀ j, (rm.realms j).pgid < rm.nextId ∧ (rm.realms j).sid < rm.nextId
  /-- The members of the group of a realm's id are in the session of that realm. -/
  member : ∀ i j, (rm.realms i).active = true → (rm.realms j).active = true →
    (rm.realms j).pgid = (rm.realms i).id → (rm.realms j).sid = (rm.realms i).sid
  /-- A session under a realm's id is led by that realm. -/
  session : ∀ i j, (rm.realms i).active = true → (rm.realms j).sid = (rm.realms i).id →
    (rm.realms i).sid = (rm.realms i).id
  /-- What a realm that is gone has left in its slot is nobody else's group. -/
  stale : ∀ j, (rm.realms j).active = false → (rm.realms j).pgid ≠ 0 → ∀ k, k ≠ j →
    (rm.realms k).pgid ≠ (rm.realms j).pgid ∧
      ((rm.realms k).active = true → (rm.realms k).id ≠ (rm.realms j).pgid)

/-! ## One slot at a time -/

/-- A realm that can be active in slot `i` among the others of the table. -/
structure Joins (rm : RealmManager ρ) (next : Nat) (i : Fin maxRealms) (r : Realm ρ) : Prop where
  id : 0 < r.id ∧ r.id < next
  distinct : ∀ j, j ≠ i → (rm.realms j).active = true → (rm.realms j).id ≠ r.id
  leader : r.sid = r.id → r.pgid = r.id
  group : ∀ j, j ≠ i → (rm.realms j).active = true → (rm.realms j).pgid = r.pgid → r.pgid ≠ 0 →
    (rm.realms j).sid = r.sid
  members : ∀ j, j ≠ i → (rm.realms j).active = true → (rm.realms j).pgid = r.id →
    (rm.realms j).sid = r.sid
  memberOf : ∀ j, j ≠ i → (rm.realms j).active = true → r.pgid = (rm.realms j).id →
    r.sid = (rm.realms j).sid
  leads : ∀ j, j ≠ i → (rm.realms j).sid = r.id → r.sid = r.id
  fresh : ∀ j, j ≠ i → (rm.realms j).active = false → (rm.realms j).pgid ≠ 0 →
    r.id ≠ (rm.realms j).pgid

/-- What can be in slot `i` among the others of the table. -/
structure Fits (rm : RealmManager ρ) (next : Nat) (i : Fin maxRealms) (r : Realm ρ) : Prop where
  bounds : r.pgid < next ∧ r.sid < next
  session : ∀ j, j ≠ i → (rm.realms j).active = true → r.sid = (rm.realms j).id →
    (rm.realms j).sid = (rm.realms j).id
  stale : ∀ j, j ≠ i → (rm.realms j).active = false → (rm.realms j).pgid ≠ 0 →
    r.pgid ≠ (rm.realms j).pgid
  active : r.active = true → Joins rm next i r
  gone : r.active = false → r.pgid ≠ 0 → ∀ k, k ≠ i →
    (rm.realms k).pgid ≠ r.pgid ∧ ((rm.realms k).active = true → (rm.realms k).id ≠ r.pgid)

section Slots

variable {rm rm' : RealmManager ρ} {i : Fin maxRealms}

/-- Changing one slot keeps the invariant if the new realm fits. Each clause is about two slots: the
changed one may be either, both or none of them. -/
theorem Grouped.change (h : Grouped rm) (hother : ∀ j, j ≠ i → rm'.realms j = rm.realms j)
    (hnext : rm.nextId ≤ rm'.nextId) (hfits : Fits rm rm'.nextId i (rm'.realms i)) :
    Grouped rm' := by
  -- in each: the new realm against itself, against the others, and these among themselves
  refine ⟨⟨?_, ?_⟩, ?_, ?_, ?_, ?_, ?_, ?_⟩
  · intro j k hj hk hpgid hne
    rcases eq_or_ne j i with rfl | hji
    · rcases eq_or_ne k j with rfl | hki
      · rfl
      · rw [hother k hki] at hk hpgid ⊢
        exact ((hfits.active hj).group k hki hk hpgid.symm hne).symm
    rw [hother j hji] at hj hpgid hne ⊢
    rcases eq_or_ne k i with rfl | hki
    · exact (hfits.active hk).group j hji hj hpgid (hpgid ▸ hne)
    · rw [hother k hki] at hk hpgid ⊢
      exact h.oneSession j k hj hk hpgid hne
  · intro j hj hlead
    rcases eq_or_ne j i with rfl | hji
    · exact (hfits.active hj).leader hlead
    · rw [hother j hji] at hj hlead ⊢
      exact h.leader j hj hlead
  · intro j k hj hk hid
    rcases eq_or_ne j i with rfl | hji
    · rcases eq_or_ne k j with rfl | hki
      · rfl
      · rw [hother k hki] at hk hid
        exact absurd hid.symm ((hfits.active hj).distinct k hki hk)
    rw [hother j hji] at hj hid
    rcases eq_or_ne k i with rfl | hki
    · exact absurd hid ((hfits.active hk).distinct j hji hj)
    · rw [hother k hki] at hk hid
      exact h.distinct j k hj hk hid
  · intro j hj
    rcases eq_or_ne j i with rfl | hji
    · exact (hfits.active hj).id
    · rw [hother j hji] at hj ⊢
      exact ⟨(h.ids j hj).1, (h.ids j hj).2.trans_le hnext⟩
  · intro j
    rcases eq_or_ne j i with rfl | hji
    · exact hfits.bounds
    · rw [hother j hji]
      exact ⟨(h.bounds j).1.trans_le hnext, (h.bounds j).2.trans_le hnext⟩
  · intro j k hj hk hpgid
    rcases eq_or_ne j i with rfl | hji
    · rcases eq_or_ne k j with rfl | hki
      · rfl
      · rw [hother k hki] at hk hpgid ⊢
        exact (hfits.active hj).members k hki hk hpgid
    rw [hother j hji] at hj hpgid ⊢
    rcases eq_or_ne k i with rfl | hki
    · exact (hfits.active hk).memberOf j hji hj hpgid
    · rw [hother k hki] at hk hpgid ⊢
      exact h.member j k hj hk hpgid
  · intro j k hj hsid
    rcases eq_or_ne j i with rfl | hji
    · rcases eq_or_ne k j with rfl | hki
      · exact hsid
      · rw [hother k hki] at hsid
        exact (hfits.active hj).leads k hki hsid
    rw [hother j hji] at hj hsid ⊢
    rcases eq_or_ne k i with rfl | hki
    · exact hfits.session j hji hj hsid
    · rw [hother k hki] at hsid
      exact h.session j k hj hsid
  intro j hj hne k hkj
  rcases eq_or_ne j i with rfl | hji
  · rw [hother k hkj]
    exact hfits.gone hj hne k hkj
  rw [hother j hji] at hj hne ⊢
  rcases eq_or_ne k i with rfl | hki
  · exact ⟨hfits.stale j hji hj hne, fun hk => (hfits.active hk).fresh j hji hj hne⟩
  · rw [hother k hki]
    exact h.stale j hj hne k hkj

end Slots

/-! ## The calls keep the invariant -/

section Calls

variable {rm : RealmManager ρ}

/-- A new session for a realm that is alone in the group of its id. -/
theorem Grouped.createSession_fits (h : Grouped rm) {i : Fin maxRealms}
    (hactive : (rm.realms i).active)
    (halone : ∀ j, j ≠ i → (rm.realms j).active → (rm.realms j).pgid ≠ (rm.realms i).id) :
    Fits rm rm.nextId i { rm.realms i with
      controllingTty := none, sid := (rm.realms i).id, pgid := (rm.realms i).id } := by
  have hid := h.ids i hactive
  have hdistinct : ∀ j, j ≠ i → (rm.realms j).active → (rm.realms j).id ≠ (rm.realms i).id :=
    fun j hji hj heq => hji (h.distinct j i hj hactive heq)
  have hstale : ∀ j, j ≠ i → (rm.realms j).active = false → (rm.realms j).pgid ≠ 0 →
      (rm.realms i).id ≠ (rm.realms j).pgid :=
    fun j hji hj hne => (h.stale j hj hne i hji.symm).2 hactive
  refine ⟨⟨hid.2, hid.2⟩, fun j hji hj heq => absurd heq.symm (hdistinct j hji hj), hstale,
    fun _ => ?_, fun hgone => ?_⟩
  · exact {
      id := hid
      distinct := hdistinct
      leader := fun _ => rfl
      group := fun j hji hj heq => absurd heq (halone j hji hj)
      members := fun j hji hj heq => absurd heq (halone j hji hj)
      memberOf := fun j hji hj heq => absurd heq.symm (hdistinct j hji hj)
      leads := fun _ _ _ => rfl
      fresh := hstale }
  · rw [hactive] at hgone
    cases hgone

theorem groupInSession_some {sid pgid : Nat} (h : groupInSession rm sid pgid) :
    ∃ i, (rm.realms i).active ∧ (rm.realms i).sid = sid ∧ (rm.realms i).pgid = pgid := by
  obtain ⟨n, -, hn⟩ := List.any_eq_true.mp h
  cases hfind : rm.findId (n + 1) with
  | none =>
    rw [hfind] at hn
    cases hn
  | some i =>
    rw [hfind] at hn
    have hboth : (rm.realms i).sid = sid ∧ (rm.realms i).pgid = pgid := by simpa using hn
    exact ⟨i, (findId_some hfind).1, hboth⟩

/-- A realm that joins a group of its session, or goes back to its own. -/
theorem Grouped.setPgid_fits (h : Grouped rm) {i : Fin maxRealms} {pgid : Nat}
    (hactive : (rm.realms i).active) (hsid : (rm.realms i).sid ≠ (rm.realms i).id)
    (hgroup : pgid = (rm.realms i).id ∨ ∃ j, (rm.realms j).active ∧
      (rm.realms j).sid = (rm.realms i).sid ∧ (rm.realms j).pgid = pgid) :
    Fits rm rm.nextId i { rm.realms i with pgid := pgid } := by
  have hid := h.ids i hactive
  have hdistinct : ∀ j, j ≠ i → (rm.realms j).active → (rm.realms j).id ≠ (rm.realms i).id :=
    fun j hji hj heq => hji (h.distinct j i hj hactive heq)
  have hbound : pgid < rm.nextId := by
    rcases hgroup with rfl | ⟨j, -, -, rfl⟩
    · exact hid.2
    · exact (h.bounds j).1
  -- the realms of the group, and the realm it is named after, are in the session
  have hsame : ∀ k, (rm.realms k).active → (rm.realms k).pgid = pgid → pgid ≠ 0 →
      (rm.realms k).sid = (rm.realms i).sid := by
    intro k hk hpgid hne
    rcases hgroup with rfl | ⟨j, hj, hjsid, rfl⟩
    · exact h.member i k hactive hk hpgid
    · rw [← hjsid]
      exact h.oneSession k j hk hj hpgid (hpgid ▸ hne)
  have hnamed : ∀ k, (rm.realms k).active → pgid = (rm.realms k).id →
      (rm.realms i).sid = (rm.realms k).sid := by
    intro k hk hpgid
    rcases hgroup with rfl | ⟨j, hj, hjsid, rfl⟩
    · rw [h.distinct i k hactive hk hpgid]
    · rw [← hjsid]
      exact h.member k j hk hj hpgid
  have hstale : ∀ j, j ≠ i → (rm.realms j).active = false → (rm.realms j).pgid ≠ 0 →
      pgid ≠ (rm.realms j).pgid := by
    intro j hji hj hne
    rcases hgroup with rfl | ⟨k, hk, -, rfl⟩
    · exact (h.stale j hj hne i hji.symm).2 hactive
    refine (h.stale j hj hne k ?_).1
    rintro rfl
    rw [hk] at hj
    cases hj
  refine ⟨⟨hbound, (h.bounds i).2⟩, fun j _ hj heq => h.session j i hj heq, hstale, fun _ => ?_,
    fun hgone => ?_⟩
  · exact {
      id := hid
      distinct := hdistinct
      leader := fun hlead => absurd hlead hsid
      group := fun j _ hj => hsame j hj
      members := fun j _ hj heq => h.member i j hactive hj heq
      memberOf := fun j _ hj heq => hnamed j hj heq
      leads := fun j _ heq => h.session i j hactive heq
      fresh := fun j hji hj hne => (h.stale j hj hne i hji.symm).2 hactive }
  · rw [hactive] at hgone
    cases hgone

end Calls

/-! ## Spawning keeps the invariant -/

section Spawning

variable {env : SpawnEnv ρ} {parent : Option (Realm ρ)} {cfg : Option SpawnConfig} {path : Str}
  {r r' : Realm ρ} {rm rm' : RealmManager ρ}

variable {i : Fin maxRealms}

section

variable (h : Grouped rm)

include h

theorem Grouped.next_pos : 0 < rm.nextId := Nat.zero_lt_of_lt (h.bounds 0).1

/-- A slot that `create` has filled, with what the last realm there has left. -/
theorem Grouped.taken_fits (hfree : (rm.realms i).active = false)
    (hactive : r.active) (hid : r.id = rm.nextId) (hpgid : r.pgid = (rm.realms i).pgid)
    (hsid : r.sid = (rm.realms i).sid) : Fits rm (rm.nextId + 1) i r := by
  have hbounds := h.bounds i
  refine ⟨by omega, fun j _ hj heq => h.session j i hj (hsid ▸ heq), ?_, fun _ => ?_, ?_⟩
  · intro j hji hj hne
    rw [hpgid]
    exact (h.stale j hj hne i hji.symm).1
  · refine ⟨by omega, ?_, ?_, ?_, ?_, ?_, ?_, ?_⟩
    · intro j _ hj heq
      have := (h.ids j hj).2
      omega
    · intro hlead
      omega
    · intro j hji _ heq hne
      rw [hpgid] at heq hne
      exact absurd heq (h.stale i hfree hne j hji).1
    · intro j _ _ heq
      have := (h.bounds j).1
      omega
    · intro j hji hj heq
      have hne : (rm.realms i).pgid ≠ 0 := by
        have := (h.ids j hj).1
        omega
      rw [hpgid] at heq
      exact absurd heq.symm ((h.stale i hfree hne j hji).2 hj)
    · intro j _ heq
      have := (h.bounds j).2
      omega
    · intro j _ _ _
      have := (h.bounds j).1
      omega
  · intro hgone
    rw [hactive] at hgone
    cases hgone

/-- A realm in a group of its own, in a session of its own or in that of an active realm, whether
it is active or gone already. -/
theorem Grouped.new_fits (hid : r.active → r.id = rm.nextId) (hpgid : r.pgid = rm.nextId)
    (hsid : r.sid = rm.nextId ∨ ∃ p, (rm.realms p).active ∧ r.sid = (rm.realms p).sid) :
    Fits rm (rm.nextId + 1) i r := by
  have hbound : r.sid < rm.nextId + 1 := by
    rcases hsid with heq | ⟨p, -, heq⟩
    · omega
    · have := (h.bounds p).2
      omega
  refine ⟨⟨by omega, hbound⟩, ?_, ?_, fun hactive => ?_, ?_⟩
  · intro j _ hj heq
    rcases hsid with hown | ⟨p, -, hp⟩
    · have := (h.ids j hj).2
      omega
    · exact h.session j p hj (hp ▸ heq)
  · intro j _ _ _
    have := (h.bounds j).1
    omega
  · have hid := hid hactive
    have hpos := h.next_pos
    refine ⟨by omega, ?_, fun _ => by omega, ?_, ?_, ?_, ?_, ?_⟩
    · intro j _ hj heq
      have := (h.ids j hj).2
      omega
    · intro j _ _ heq _
      have := (h.bounds j).1
      omega
    · intro j _ _ heq
      have := (h.bounds j).1
      omega
    · intro j _ hj heq
      have := (h.ids j hj).2
      omega
    · intro j _ heq
      have := (h.bounds j).2
      omega
    · intro j _ _ _
      have := (h.bounds j).1
      omega
  intro _ _ k _
  refine ⟨?_, fun hk => ?_⟩
  · have := (h.bounds k).1
    omega
  · have := (h.ids k hk).2
    omega

omit h in
/-- `abort` of the realm that `spawn` has built frees its slot only. -/
theorem abort_built (hactive : r.active)
    (hother : ∀ j, j ≠ i → (rm.realms j).active → (rm.realms j).id ≠ r.id) :
    let rm' := (rm.setRealm i r).abort r.id
    rm'.nextId = rm.nextId ∧ (∀ j, j ≠ i → rm'.realms j = rm.realms j) ∧
      (rm'.realms i).active = false ∧ (rm'.realms i).pgid = r.pgid ∧ (rm'.realms i).sid = r.sid := by
  intro rm'
  have hfind : (rm.setRealm i r).findId r.id = some i := by
    refine findId_eq_some (by simpa using hactive) (by simp) fun k hk hid => ?_
    by_contra hki
    rw [setRealm_of_ne hki] at hk hid
    exact hother k hki hk hid
  have habort : rm' = ((rm.setRealm i r).setRealm i { (rm.setRealm i r).realms i with
      hasAddressSpace := false, handleTable := .init }).finalizeLocked i := by
    show (rm.setRealm i r).abort r.id = _
    rw [abort, hfind]
  rw [habort]
  refine ⟨rfl, fun j hj => ?_, ?_, ?_, ?_⟩
  · simp only [finalizeLocked, setRealm_of_ne hj]
  · simp [finalizeLocked]
  · simp [finalizeLocked]
  · simp [finalizeLocked]

/-- The counter of the table plays no part. -/
theorem Grouped.congr (hrealms : rm'.realms = rm.realms)
    (hnext : rm'.nextId = rm.nextId) : Grouped rm' := by
  rcases rm' with ⟨realms, nextId, seq⟩
  subst hrealms hnext
  exact ⟨⟨h.oneSession, h.leader⟩, h.distinct, h.ids, h.bounds, h.member, h.session, h.stale⟩

theorem Grouped.spawn (env : SpawnEnv ρ) {caller : Option (Fin maxRealms)}
    (hcaller : ∀ p ∈ caller, (rm.realms p).active) (path : Option Str)
    (cfg : Option SpawnConfig) : Grouped (spawn env rm caller path cfg).1 := by
  unfold Exec.spawn
  split
  · exact h
  next p =>
  dsimp only
  rcases hcreate : rm.create _ env.createAllocs with ⟨rm1, res⟩
  rcases create_cases hcreate with ⟨rfl, hnext, hrealms⟩ |
    ⟨i, ⟨hfree, hnext, hid, hactive, -, -, hpgid, hsid, hother⟩, hres⟩
  · -- no free slot
    exact h.congr hrealms hnext
  rcases hres with rfl | ⟨rfl, -⟩
  · -- a slot, but no memory
    dsimp only
    refine h.change hother (by omega) ?_
    rw [hnext]
    exact h.taken_fits hfree hactive hid hpgid hsid
  dsimp only
  rcases hbuild : buildRealm env (caller.map rm.realms) p cfg (rm1.realms i) with ⟨r, built⟩
  have hbuilt := buildRealm_built hbuild
  have hpgid' : r.pgid = rm.nextId := hbuilt.pgid.trans hid
  have hsid' : r.sid = rm.nextId ∨
      ∃ p, (rm.realms p).active ∧ r.sid = (rm.realms p).sid := by
    rcases hbuilt.sid with hown | ⟨parent, hparent, hown⟩
    · exact .inl (hown.trans hid)
    · obtain ⟨p, hp, rfl⟩ := Option.map_eq_some_iff.mp hparent
      exact .inr ⟨p, hcaller p hp, hown⟩
  cases built with
  | error e =>
    -- the realm is gone again, its group stays in the slot
    have hlive : r.active := hbuilt.active.trans hactive
    have hids : ∀ j, j ≠ i → (rm1.realms j).active → (rm1.realms j).id ≠ r.id := by
      intro j hji hj
      rw [hother j hji] at hj ⊢
      have := (h.ids j hj).2
      rw [hbuilt.id, hid]
      omega
    obtain ⟨hnext', hother', hgone, hpgid'', hsid''⟩ := abort_built hlive hids
    dsimp only
    refine h.change (fun j hj => (hother' j hj).trans (hother j hj)) (by omega) ?_
    rw [hnext', hnext]
    refine h.new_fits (fun hlive => ?_) (hpgid''.trans hpgid') (by rw [hsid'']; exact hsid')
    rw [hgone] at hlive
    cases hlive
  | ok elf =>
    refine h.change (i := i) (fun j hj => (setRealm_of_ne hj).trans (hother j hj)) ?_ ?_
    · rw [setRealm_nextId]
      omega
    · rw [setRealm_nextId, setRealm_self, hnext]
      exact h.new_fits (fun _ => hbuilt.id.trans hid) hpgid' hsid'

end

end Spawning

/-! ## Runs -/

section Runs

variable {rm : RealmManager ρ}

/-- Step lemma. -/
theorem Grouped.step (h : Grouped rm) {a : JobAct ρ} (halone : LeadsAlone rm a) :
    Grouped (jobStep rm a).1 := by
  cases a with
  | spawn caller env path cfg =>
    rw [jobStep]
    split
    · next hcaller =>
      refine h.spawn env (fun p hp => ?_) path cfg
      rw [hp] at hcaller
      exact hcaller
    · exact h
  | createSession id =>
    rw [jobStep]
    split
    · exact h
    next hidle =>
      have halone := halone (by simpa using hidle)
      unfold Exec.createSession
      split
      · exact h
      next i hfind =>
        obtain ⟨hactive, rfl⟩ := findId_some hfind
        dsimp only
        split
        · exact h
        next hsid =>
          refine h.change (i := i) (fun j hj => setRealm_of_ne hj) (Nat.le_refl _) ?_
          rw [setRealm_self]
          exact h.createSession_fits hactive (halone i hfind hsid)
  | setPgid callerId targetId desiredPgid =>
    rw [jobStep]
    split
    · exact h
    unfold Exec.setPgid
    split
    next c t hcaller htarget =>
      have hactive := (findId_some htarget).1
      dsimp only
      split
      · exact h
      next hsid =>
      split
      · exact h
      next hsession =>
      split
      · exact h
      next hgroup =>
        refine h.change (i := t) (fun j hj => setRealm_of_ne hj) (Nat.le_refl _) ?_
        rw [setRealm_self]
        refine h.setPgid_fits hactive hsid ?_
        by_cases hown : desiredPgid = (rm.realms t).id
        · exact .inl hown
        have hfound : groupInSession rm (rm.realms c).sid desiredPgid := by
          simpa [hown] using hgroup
        obtain ⟨j, hj, hjsid, hjpgid⟩ := groupInSession_some hfound
        exact .inr ⟨j, hj, hjsid.trans (not_not.mp hsession).symm, hjpgid⟩
    · exact h

/-- After the step, groups are inside of sessions. -/
def KeepsGroups (rm : RealmManager ρ) (a : JobAct ρ) : Prop := GroupsInSessions (jobStep rm a).1

/-- A session leader that leaves members of its group behind breaks the group apart. -/
theorem Grouped.keepsGroups_iff (h : Grouped rm) (a : JobAct ρ) :
    KeepsGroups rm a ↔ LeadsAlone rm a := by
  constructor
  · intro hkeeps
    cases a with
    | spawn | setPgid => trivial
    | createSession id =>
      intro hidle i hfind hsid j hji hj hpgid
      obtain ⟨hactive, rfl⟩ := findId_some hfind
      have hstep : (jobStep rm (.createSession (rm.realms i).id)).1 = rm.setRealm i
          { rm.realms i with
            controllingTty := none, sid := (rm.realms i).id, pgid := (rm.realms i).id } := by
        rw [jobStep, hidle, Exec.createSession, hfind]
        simp only [if_neg hsid]
        rfl
      unfold KeepsGroups at hkeeps
      rw [hstep] at hkeeps
      have hsplit := hkeeps.oneSession i j
      rw [setRealm_self, setRealm_of_ne hji] at hsplit
      have hpos := (h.ids i hactive).1
      have hsame := hsplit hactive hj hpgid.symm (by dsimp only; omega)
      exact hsid (h.session i j hactive hsame.symm)
  · intro halone
    exact (h.step halone).toGroupsInSessions

/-- In a run from a table that meets the invariant, groups are inside of sessions after every step
exactly if every realm that makes a session is alone in its group. -/
theorem Grouped.run_iff (h : Grouped rm) {acts : List (JobAct ρ)} :
    Along jobStep KeepsGroups rm acts ↔ Along jobStep LeadsAlone rm acts := by
  induction acts generalizing rm with
  | nil => exact Iff.rfl
  | cons a acts ih =>
    have hiff := h.keepsGroups_iff a
    constructor
    · rintro ⟨hkeeps, hrest⟩
      have halone := hiff.mp hkeeps
      exact ⟨halone, (ih (h.step halone)).mp hrest⟩
    · rintro ⟨halone, hrest⟩
      exact ⟨hiff.mpr halone, (ih (h.step halone)).mpr hrest⟩

/-- Before the first spawn there are realms of the kernel only, which are in no group and no
session. -/
structure KernelOnly (rm : RealmManager ρ) : Prop where
  pgid : ∀ i, (rm.realms i).pgid = 0
  sid : ∀ i, (rm.realms i).sid = 0
  ids : ∀ i, (rm.realms i).active = true → 0 < (rm.realms i).id ∧ (rm.realms i).id < rm.nextId
  distinct : ∀ i j, (rm.realms i).active = true → (rm.realms j).active = true →
    (rm.realms i).id = (rm.realms j).id → i = j
  nextId : 0 < rm.nextId

theorem KernelOnly.grouped (h : KernelOnly rm) : Grouped rm := by
  refine ⟨⟨?_, ?_⟩, h.distinct, h.ids, ?_, ?_, ?_, ?_⟩
  · intro i j _ _ _ _
    rw [h.sid, h.sid]
  · intro i hi hlead
    rw [h.sid] at hlead
    have := (h.ids i hi).1
    omega
  · intro j
    rw [h.pgid, h.sid]
    exact ⟨h.nextId, h.nextId⟩
  · intro i j _ _ _
    rw [h.sid, h.sid]
  · intro i j hi hlead
    rw [h.sid] at hlead
    have := (h.ids i hi).1
    omega
  · intro j _ hne
    exact absurd (h.pgid j) hne

end Runs

/-! ## A leader and its follower -/

section Demo

/-- The kernel's realm. -/
def kernelRealms : RealmManager Unit :=
  ((initialized Unit).create { name := none, capabilities := 0, isUser := false }
    ⟨true, true, true⟩).1

theorem kernelRealms_only : KernelOnly kernelRealms := by
  refine ⟨by decide +kernel, by decide +kernel, by decide +kernel, ?_, by decide +kernel⟩
  have hslot : ∀ i, (kernelRealms.realms i).active → i = 0 := by decide +kernel
  intro i j hi hj _
  rw [hslot i hi, hslot j hj]

/-- Two programs, of which the second joins the group of the first. -/
def joined : List (JobAct Unit) :=
  [.spawn (some 0) demoEnv (some "/sh".toList) none, .spawn (some 0) demoEnv (some "/sh".toList) none,
    .setPgid 3 3 2]

end Demo

end Vespera.Exec
