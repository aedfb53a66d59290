import Vespera.Realm.RealmManager

/-! # The sequence counter of the realm table

`seq_` is odd while a writer is at work. `get`, `signal_pgid` and `get_active_count` take no lock:
they start over until they find the counter even, and the same at their end.

`create` makes the counter odd when it begins and even when it ends, but it returns from the middle
when it gets no memory for the handle table or for the address space. The slot that it had taken
then stays active as well.

Main results:

* `tableStep_safe_iff`: from an even counter, a call behaves exactly if it is not such a `create`;
* `seq_even_iff`: the same for sequences of calls.
-/

namespace Vespera.Realms

open Lib

namespace RealmManager

variable {ρ : Type} {rm rm' : RealmManager ρ}

/-! ## Readers -/

/-- `begin & 1`. -/
def writing (rm : RealmManager ρ) : Bool := rm.seq &&& 1 != 0

/-- The loop of the readers while no writer changes the table, for a number of turns. -/
def readLoop {β : Type} (rm : RealmManager ρ) (body : RealmManager ρ → β) : Nat → Option β
  | 0 => none
  | n + 1 => if rm.writing then rm.readLoop body n else some (body rm)

variable (rm)

def get (id : Nat) (turns : Nat) : Option (Option (Fin maxRealms)) :=
  rm.readLoop (·.findId id) turns

/-- `signal_pgid`: the slots whose realms are sent the signal. -/
def signalPgid (pgid : Nat) (turns : Nat) : Option (List (Fin maxRealms)) :=
  if pgid = 0 then some []
  else rm.readLoop (fun rm => (List.finRange maxRealms).filter fun i =>
    (rm.realms i).active && (rm.realms i).pgid == pgid) turns

def getActiveCount (turns : Nat) : Option Nat :=
  rm.readLoop (fun rm => ((List.finRange maxRealms).filter fun i => (rm.realms i).active).length)
    turns

/-- The readers return. -/
def ReadersReturn : Prop :=
  (∀ id, ∃ turns, (rm.get id turns).isSome) ∧
    (∀ pgid, ∃ turns, (rm.signalPgid pgid turns).isSome) ∧
    ∃ turns, (rm.getActiveCount turns).isSome

variable {rm}

theorem readLoop_writing {β : Type} (h : rm.writing)
    {body : RealmManager ρ → β} {turns : Nat} : rm.readLoop body turns = none := by
  induction turns with
  | zero => rfl
  | succ n ih => rw [readLoop, if_pos h, ih]

theorem readLoop_idle {β : Type} (h : rm.writing = false)
    {body : RealmManager ρ → β} : rm.readLoop body 1 = some (body rm) := by
  rw [readLoop, h]
  rfl

variable (rm)

/-- The readers return exactly if the counter is even. -/
theorem readersReturn_iff : rm.ReadersReturn ↔ rm.writing = false := by
  constructor
  · rintro ⟨-, -, turns, hcount⟩
    by_contra hwriting
    rw [getActiveCount, readLoop_writing (by simpa using hwriting)] at hcount
    cases hcount
  intro hidle
  refine ⟨fun id => ⟨1, ?_⟩, fun pgid => ⟨1, ?_⟩, 1, ?_⟩
  · rw [get, readLoop_idle hidle]
    rfl
  · unfold signalPgid
    split
    · rfl
    · rw [readLoop_idle hidle]
      rfl
  · rw [getActiveCount, readLoop_idle hidle]
    rfl

/-! ## Writers -/

/-- The calls that take `global_lock_`; the configuration of `create` may be a null pointer. -/
inductive TableCall where
  | create (cfg : Option RealmConfig) (allocs : CreateAllocs)
  | destroy (id : Nat) (exitCode : Int)
  | abort (id : Nat)
  | reap (id : Nat)
  | markTeardownComplete (id : Nat)

/-- One call: the table, and the result of `create` if it is one. -/
def tableStep : TableCall → RealmManager ρ × Option (Option (Fin maxRealms))
  | .create none _ => (rm, some none)
  | .create (some cfg) allocs =>
    let r := rm.create cfg allocs
    (r.1, some r.2)
  | .destroy id exitCode => (rm.destroy id exitCode, none)
  | .abort id => (rm.abort id, none)
  | .reap id => (rm.reap id, none)
  | .markTeardownComplete id => (rm.markTeardownComplete id, none)

/-- No allocation that `create` makes for this configuration fails. -/
def AllocsOk (cfg : RealmConfig) (allocs : CreateAllocs) : Prop :=
  allocs.handleTable = true ∧
    (cfg.isUser = true → allocs.addressSpace = true ∧ allocs.addressSpaceInit = true)

instance (cfg : RealmConfig) (allocs : CreateAllocs) : Decidable (AllocsOk cfg allocs) :=
  inferInstanceAs (Decidable (_ ∧ (_ → _ ∧ _)))

/-- A `create` that finds a free slot gets the memory it asks for. -/
def CreateSafe : TableCall → Prop
  | .create (some cfg) allocs => rm.findSlot (!·.active) = none ∨ AllocsOk cfg allocs
  | _ => True

instance (c : TableCall) : Decidable (rm.CreateSafe c) :=
  match c with
  | .create (some _) _ => inferInstanceAs (Decidable (_ ∨ _))
  | .create none _ | .destroy .. | .abort _ | .reap _ | .markTeardownComplete _ => isTrue trivial

/-- The same slots are active in both tables. -/
def SameActive (rm' : RealmManager ρ) : Prop := ∀ j, (rm'.realms j).active = (rm.realms j).active

/-- After the call the counter is even, the readers return, and a `create` that has returned
`nullptr` has left no slot active. -/
def CallBehaves (c : TableCall) : Prop :=
  (tableStep rm c).1.writing = false ∧ (tableStep rm c).1.ReadersReturn ∧
    ((tableStep rm c).2 = some none → SameActive rm (tableStep rm c).1)

variable {rm}

/-! ## The counter -/

theorem writing_iff : rm.writing ↔ rm.seq.toNat % 2 = 1 := by
  have hand : (rm.seq &&& 1).toNat = rm.seq.toNat % 2 := by
    rw [UInt8.toNat_and]
    exact Nat.and_one_is_mod _
  have hzero : rm.seq &&& 1 = 0 ↔ rm.seq.toNat % 2 = 0 := by
    rw [← UInt8.toNat_inj, hand]
    rfl
  unfold writing
  simp only [bne_iff_ne, ne_eq, hzero]
  omega

/-- The counters agree up to the end of a write. -/
def SameParity (rm rm' : RealmManager ρ) : Prop := rm'.writing = rm.writing

theorem sameParity_of_seq (h : rm'.seq = rm.seq + 2) : SameParity rm rm' := by
  have hsum : rm'.seq.toNat % 2 = rm.seq.toNat % 2 := by
    rw [h, UInt8.toNat_add]
    show (rm.seq.toNat + 2) % 256 % 2 = _
    omega
  unfold SameParity
  rw [Bool.eq_iff_iff, writing_iff, writing_iff, hsum]

theorem writing_succ (h : rm'.seq = rm.seq + 1) (hidle : rm.writing = false) : rm'.writing := by
  have hold : ¬ rm.seq.toNat % 2 = 1 := by
    rw [← writing_iff, hidle]
    exact Bool.false_ne_true
  rw [writing_iff, h, UInt8.toNat_add]
  show (rm.seq.toNat + 1) % 256 % 2 = 1
  omega

theorem SameParity.trans {rm'' : RealmManager ρ} (h : SameParity rm rm')
    (h' : SameParity rm' rm'') : SameParity rm rm'' := Eq.trans h' h

theorem sameParity_setRealm (rm : RealmManager ρ) (i : Fin maxRealms) (r : Realm ρ) :
    SameParity rm (rm.setRealm i r) := rfl

theorem sameParity_finalizeLocked {i : Fin maxRealms} :
    SameParity rm (rm.finalizeLocked i) := sameParity_of_seq rfl

/-- The shape that most calls share: change a slot, then free it on a condition. -/
theorem sameParity_finalize_ite {i : Fin maxRealms} {r : Realm ρ} {c : Prop} [Decidable c] :
    SameParity rm (if c then (rm.setRealm i r).finalizeLocked i else rm.setRealm i r) := by
  split
  · exact (sameParity_setRealm rm i r).trans sameParity_finalizeLocked
  · exact sameParity_setRealm rm i r

theorem sameParity_foldl_orphan (id : Nat) (rm : RealmManager ρ) (l : List (Fin maxRealms)) :
    SameParity rm (l.foldl (orphan id) rm) := by
  induction l generalizing rm with
  | nil => rfl
  | cons j l ih =>
    have hfirst : SameParity rm (orphan id rm j) := by
      unfold orphan
      dsimp only
      split_ifs
      · exact sameParity_finalizeLocked
      · rfl
      · rfl
    exact hfirst.trans (ih _)

theorem sameParity_destroy {id : Nat} {exitCode : Int} :
    SameParity rm (rm.destroy id exitCode) := by
  unfold destroy
  split
  · rfl
  split
  · rfl
  · refine (sameParity_foldl_orphan id rm (List.finRange maxRealms)).trans ?_
    exact sameParity_finalize_ite

theorem sameParity_abort {id : Nat} : SameParity rm (rm.abort id) := by
  unfold abort
  split
  · rfl
  · exact (sameParity_setRealm rm _ _).trans sameParity_finalizeLocked

theorem sameParity_reap {id : Nat} : SameParity rm (rm.reap id) := by
  unfold reap
  split
  · rfl
  · exact sameParity_finalize_ite

theorem sameParity_markTeardownComplete {id : Nat} :
    SameParity rm (rm.markTeardownComplete id) := by
  unfold markTeardownComplete
  split
  · rfl
  · exact sameParity_finalize_ite

/-- A `create` ends its write if it gets its memory, or finds no slot. -/
theorem create_safe {cfg : RealmConfig} {allocs : CreateAllocs}
    {res : Option (Fin maxRealms)} (h : rm.create cfg allocs = (rm', res))
    (hsafe : rm.findSlot (!·.active) = none ∨ AllocsOk cfg allocs) :
    SameParity rm rm' ∧ (res = none → SameActive rm rm') := by
  unfold create at h
  split at h
  · cases h
    exact ⟨sameParity_of_seq rfl, fun _ _ => rfl⟩
  next i hslot =>
    have hallocs : AllocsOk cfg allocs := by
      refine hsafe.resolve_left ?_
      rw [hslot]
      exact nofun
    split at h
    · next hno => simp [hallocs.1] at hno
    split at h
    · next huser =>
      split at h
      · next hno => simp [hallocs.2 huser] at hno
      · cases h
        exact ⟨sameParity_of_seq (by rw [add_assoc]; rfl), nofun⟩
    · cases h
      exact ⟨sameParity_of_seq (by rw [add_assoc]; rfl), nofun⟩

/-- A `create` that finds a slot and lacks memory returns in the middle of its write. -/
theorem create_cut_short {cfg : RealmConfig} {allocs : CreateAllocs}
    {res : Option (Fin maxRealms)} (h : rm.create cfg allocs = (rm', res))
    (hshort : ¬ (rm.findSlot (!·.active) = none ∨ AllocsOk cfg allocs)) : rm'.seq = rm.seq + 1 := by
  obtain ⟨hslot, hallocs⟩ := not_or.mp hshort
  unfold create at h
  split at h
  · next hnone => exact absurd hnone hslot
  split at h
  · cases h
    rfl
  next htable =>
    have htable : allocs.handleTable := by simpa using htable
    split at h
    · next huser =>
      split at h
      · cases h
        rfl
      · next hspace =>
        refine absurd ⟨htable, fun _ => ?_⟩ hallocs
        simpa using hspace
    · next huser => exact absurd ⟨htable, fun hu => absurd hu huser⟩ hallocs

/-- Step lemma. -/
theorem tableStep_safe_iff (hidle : rm.writing = false) (c : TableCall) :
    CallBehaves rm c ↔ CreateSafe rm c := by
  -- a call that keeps the parity and is no `create` behaves
  have hkeep : SameParity rm (tableStep rm c).1 →
      ((tableStep rm c).2 = some none → SameActive rm (tableStep rm c).1) → CallBehaves rm c := by
    intro hparity hactive
    have hnext : (tableStep rm c).1.writing = false := Eq.trans hparity hidle
    exact ⟨hnext, (readersReturn_iff _).mpr hnext, hactive⟩
  cases c with
  | create cfg allocs =>
    cases cfg with
    | none => exact ⟨fun _ => trivial, fun _ => hkeep rfl fun _ _ => rfl⟩
    | some cfg =>
      rcases hcreate : rm.create cfg allocs with ⟨rm', res⟩
      have hstep : tableStep rm (.create (some cfg) allocs) = (rm', some res) := by
        rw [tableStep, hcreate]
      constructor
      · intro hbehaves
        by_contra hshort
        have hwriting := writing_succ (create_cut_short hcreate hshort) hidle
        have hend := hbehaves.1
        rw [hstep, hwriting] at hend
        cases hend
      · intro hsafe
        obtain ⟨hparity, hactive⟩ := create_safe hcreate hsafe
        rw [hstep] at hkeep
        exact hkeep hparity fun hnull => hactive (Option.some.inj hnull)
  | destroy id exitCode =>
    exact ⟨fun _ => trivial, fun _ => hkeep sameParity_destroy nofun⟩
  | abort id => exact ⟨fun _ => trivial, fun _ => hkeep sameParity_abort nofun⟩
  | reap id => exact ⟨fun _ => trivial, fun _ => hkeep sameParity_reap nofun⟩
  | markTeardownComplete id =>
    exact ⟨fun _ => trivial, fun _ => hkeep sameParity_markTeardownComplete nofun⟩

/-- Every call of a sequence behaves exactly if no `create` in it that finds a free slot lacks
memory. -/
theorem seq_even_iff {rm : RealmManager ρ} (hidle : rm.writing = false) (calls : List TableCall) :
    Along tableStep CallBehaves rm calls ↔ Along tableStep CreateSafe rm calls := by
  induction calls generalizing rm with
  | nil => exact Iff.rfl
  | cons c calls ih =>
    have hstep := tableStep_safe_iff hidle c
    constructor
    · rintro ⟨hbehaves, hrest⟩
      exact ⟨hstep.mp hbehaves, (ih hbehaves.1).mp hrest⟩
    · rintro ⟨hsafe, hrest⟩
      have hbehaves := hstep.mpr hsafe
      exact ⟨hbehaves, (ih hbehaves.1).mpr hrest⟩

/-- The table after `initialize`. -/
def initialized (ρ : Type) : RealmManager ρ := ⟨fun _ => .zero ρ, 1, 0⟩

/-- A program is started and ends; the next one finds no memory, but takes no slot. -/
theorem seq_even_calls :
    let user : RealmConfig := { name := none, capabilities := 0, isUser := true }
    Along tableStep CallBehaves (initialized Unit)
      [.create (some user) ⟨true, true, true⟩, .create none ⟨true, true, true⟩, .destroy 1 0,
        .markTeardownComplete 1, .reap 1, .create (some user) ⟨true, true, true⟩, .abort 2] := by
  intro user
  exact (seq_even_iff (by decide) _).mpr (by decide +kernel)

/-- The address space of a realm cannot be set up: the slot stays active, the counter stays odd, and
`get` does not return any more. -/
theorem create_stops_readers :
    let user : RealmConfig := { name := none, capabilities := 0, isUser := true }
    let r := (initialized Unit).create user ⟨true, true, false⟩
    r.2 = none ∧ r.1.seq = 1 ∧ (r.1.realms 0).active = true ∧ ∀ turns, r.1.get 1 turns = none := by
  refine ⟨by decide +kernel, by decide +kernel, by decide +kernel, fun turns => ?_⟩
  exact readLoop_writing (by decide +kernel)

end RealmManager

end Vespera.Realms
