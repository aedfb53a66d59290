import Mathlib.Data.Nat.Bits
import Mathlib.Data.Nat.ModEq
import Vespera.Lib.Run

/-! # The producer rings of the xHCI driver

`xhci_rings.cpp`: the command ring and the transfer ring take TRBs in alike. The controller looks
at one TRB in a step, and passes it if its cycle bit is the controller's own. In a ring that is as
full as it may be, a Link TRB that the controller has reached and not passed gets the cycle bit of
the next lap, and the controller never passes it.
-/

namespace Vespera.Usb

open Lib List Function

/-- A TRB, its control word in bit fields. The lowest of the flags is the toggle-cycle bit of a
Link TRB. -/
structure Trb where
  parameter : BitVec 64
  status : BitVec 32
  cycle : Bool
  flags : BitVec 9
  trbType : BitVec 6
  rsvd : BitVec 16
deriving DecidableEq

/-- `XHCI_TRB_TYPE_LINK`. -/
def trbTypeLink : BitVec 6 := 6

/-- The control word of the Link TRB is written. -/
def Trb.setLink (t : Trb) (rcs : Bool) : Trb :=
  { t with cycle := rcs, flags := 1, trbType := trbTypeLink, rsvd := 0 }

/-- `XhciTransferRing`, or `XhciCommandRing`. -/
structure XhciRing where
  trbs : Nat → Trb
  enqueuePtr : Nat
  rcs : Bool

/-- A ring, the controller's place in it and its cycle state. `written` are the TRBs that callers
have handed to `enqueue`, with the Link TRBs that are due at the wraps, and `passed` those that the
controller has consumed or, at a Link TRB, followed. -/
structure Bus where
  ring : XhciRing
  dequeuePtr : Nat
  ccs : Bool
  written : List Trb
  passed : List Trb

inductive BusAct where
  | enqueue (t : Trb)
  | fetch

section Model

variable (maxTrbs : Nat) (base : BitVec 64)

/-- The constructor, in zeroed memory. -/
def XhciRing.init : XhciRing :=
  let zero : Nat → Trb := fun _ => ⟨0, 0, false, 0, 0, 0⟩
  let link := { zero (maxTrbs - 1) with parameter := base }
  ⟨update zero (maxTrbs - 1) (link.setLink true), 0, true⟩

def XhciRing.enqueue (r : XhciRing) (t : Trb) : XhciRing :=
  let trbs := update r.trbs r.enqueuePtr { t with cycle := r.rcs }
  if r.enqueuePtr + 1 = maxTrbs - 1 then
    ⟨update trbs (maxTrbs - 1) ((trbs (maxTrbs - 1)).setLink r.rcs), 0, !r.rcs⟩
  else ⟨trbs, r.enqueuePtr + 1, r.rcs⟩

/-- The controller looks at one TRB. -/
def Bus.fetch (s : Bus) : Bus :=
  let t := s.ring.trbs s.dequeuePtr
  if t.cycle ≠ s.ccs then s
  else if t.trbType = trbTypeLink then
    { s with
      dequeuePtr := (t.parameter - base).toNat / 16
      ccs := if t.flags.getLsbD 0 then !s.ccs else s.ccs
      passed := s.passed ++ [t] }
  else { s with dequeuePtr := s.dequeuePtr + 1, passed := s.passed ++ [t] }

/-- The Link TRB back to the first place, with the toggle-cycle bit. -/
def linkTrb (cycle : Bool) : Trb := ⟨base, 0, cycle, 1, trbTypeLink, 0⟩

/-- What an `enqueue` should write: the TRB with the producer's cycle state, and behind the last
place the Link TRB. -/
def due (r : XhciRing) (t : Trb) : List Trb :=
  { t with cycle := r.rcs } ::
    if r.enqueuePtr + 1 = maxTrbs - 1 then [linkTrb base r.rcs] else []

def busStep (s : Bus) : BusAct → Bus × Unit
  | .enqueue t =>
    ({ s with
      ring := s.ring.enqueue maxTrbs t
      written := s.written ++ due maxTrbs base s.ring t }, ())
  | .fetch => (s.fetch base, ())

def Bus.boot : Bus := ⟨.init maxTrbs base, 0, true, [], []⟩

/-- The TRBs that were enqueued and not consumed. -/
def Bus.outstanding (s : Bus) : List Trb :=
  (s.written.drop s.passed.length).filter fun t => t.trbType ≠ trbTypeLink

/-- No Link TRB is enqueued, and the ring has room for what is written. -/
def Fits (s : Bus) : BusAct → Prop
  | .enqueue t => t.trbType ≠ trbTypeLink ∧
    (busStep maxTrbs base s (.enqueue t)).1.written.length ≤ s.passed.length + maxTrbs
  | .fetch => True

instance (s : Bus) : (a : BusAct) → Decidable (Fits maxTrbs base s a)
  | .enqueue _ => inferInstanceAs (Decidable (_ ∧ _))
  | .fetch => inferInstanceAs (Decidable True)

end Model

/-! ## Laps -/

/-- The cycle bit of the `k`-th TRB in a ring of `m` places. -/
def lap (m k : Nat) : Bool := !(k / m).bodd

variable {m k : Nat}

theorem lap_add (hm : 0 < m) : lap m (k + m) = !lap m k := by
  rw [lap, lap, Nat.add_div_right k hm, Nat.bodd_succ]

/-- The next place, in the next lap or in the same. -/
theorem lap_succ (hm : 0 < m) :
    if k % m + 1 = m then (k + 1) % m = 0 ∧ lap m (k + 1) = !lap m k
    else (k + 1) % m = k % m + 1 ∧ lap m (k + 1) = lap m k := by
  have hk := Nat.div_add_mod k m
  have hlt := Nat.mod_lt k hm
  split
  · obtain ⟨hdiv, hmod⟩ := (Nat.div_mod_unique hm).mpr
      (⟨by rw [Nat.mul_succ]; omega, hm⟩ : 0 + m * (k / m + 1) = k + 1 ∧ 0 < m)
    exact ⟨hmod, by rw [lap, lap, hdiv, Nat.bodd_succ]⟩
  · obtain ⟨hdiv, hmod⟩ := (Nat.div_mod_unique hm).mpr
      (⟨by omega, by omega⟩ : k % m + 1 + m * (k / m) = k + 1 ∧ k % m + 1 < m)
    exact ⟨hmod, by rw [lap, lap, hdiv]⟩

/-- Two TRBs less than a lap apart are in different places. -/
theorem place_ne {j : Nat} (hlt : k < j) (h : j < k + m) : k % m ≠ j % m := by
  intro heq
  have hdvd := (Nat.modEq_iff_dvd' hlt.le).mp heq
  exact absurd (Nat.le_of_dvd (by omega) hdvd) (by omega)

/-- The TRBs at the end of a lap, and only they, are Link TRBs to the first place. -/
def Kind (m : Nat) (base : BitVec 64) (k : Nat) (t : Trb) : Prop :=
  if k % m + 1 = m then
    t.trbType = trbTypeLink ∧ t.parameter = base ∧ t.status = 0 ∧ t.flags = 1
  else t.trbType ≠ trbTypeLink

/-- The places hold the last lap of what was written, and each but that of the Link TRB has the
other cycle bit than the TRB that comes there next. -/
structure Tape (m : Nat) (base : BitVec 64) (trbs : Nat → Trb) (written : List Trb) : Prop where
  slots : ∀ k < written.length, written.length ≤ k + m → written[k]? = some (trbs (k % m)) ∧
    (trbs (k % m)).cycle = lap m k ∧ Kind m base k (trbs (k % m))
  stale : ∀ k < written.length + m, written.length ≤ k → k % m + 1 ≠ m →
    (trbs (k % m)).cycle = !lap m k
  target : (trbs (m - 1)).parameter = base ∧ (trbs (m - 1)).status = 0

variable {base : BitVec 64}

theorem Tape.write {trbs : Nat → Trb} {written : List Trb} {t : Trb} {i : Nat}
    (h : Tape m base trbs written) (hm : 0 < m) (hplace : written.length % m = i)
    (ht : t.cycle = lap m written.length) (hkind : Kind m base written.length t) :
    Tape m base (update trbs i t) (written ++ [t]) := by
  subst hplace
  have hlen : (written ++ [t]).length = written.length + 1 := length_append
  refine ⟨?_, ?_, ?_⟩
  · intro k hk hle
    rw [hlen] at hk hle
    rcases Nat.lt_or_eq_of_le (Nat.le_of_lt_succ hk) with hold | rfl
    · rw [getElem?_append_left hold, update_of_ne (place_ne hold (by omega))]
      exact h.slots k hold (by omega)
    · simpa using ⟨ht, hkind⟩
  · intro k hk hle hlink
    rw [hlen] at hk hle
    by_cases hlast : k = written.length + m
    · rw [hlast, Nat.add_mod_right, update_self, lap_add hm, Bool.not_not]
      exact ht
    · rw [update_of_ne (place_ne hle (by omega)).symm]
      exact h.stale k (by omega) (by omega) hlink
  · by_cases hlink : m - 1 = written.length % m
    · rw [Kind, if_pos (by omega)] at hkind
      rw [hlink, update_self]
      exact ⟨hkind.2.1, hkind.2.2.1⟩
    · rw [update_of_ne hlink]
      exact h.target

/-! ## The invariant -/

/-- The side of the driver, which is never at the place of the Link TRB. -/
structure Stored (m : Nat) (base : BitVec 64) (r : XhciRing) (written : List Trb) : Prop where
  ptr : written.length % m = r.enqueuePtr
  inside : r.enqueuePtr + 1 < m
  rcs : r.rcs = lap m written.length
  tape : Tape m base r.trbs written

theorem stored_init (hm : 2 ≤ m) : Stored m base (.init m base) [] := by
  refine ⟨Nat.zero_mod m, hm, by simp [XhciRing.init, lap], ⟨nofun, fun k hk _ hlink => ?_, ?_⟩⟩
  · rw [length_nil, Nat.zero_add] at hk
    rw [Nat.mod_eq_of_lt hk] at hlink ⊢
    have hne : k ≠ m - 1 := by omega
    simp [XhciRing.init, hne, lap, Nat.div_eq_of_lt hk]
  · simp [XhciRing.init, Trb.setLink]

/-- `enqueue` writes one TRB, or one and the Link TRB. -/
theorem Stored.enqueue {r : XhciRing} {written : List Trb} {t : Trb} (h : Stored m base r written)
    (ht : t.trbType ≠ trbTypeLink) :
    Stored m base (r.enqueue m t) (written ++ due m base r t) := by
  have hin := h.inside
  have hm : 0 < m := by omega
  have hone := lap_succ hm (k := written.length)
  rw [h.ptr, if_neg hin.ne] at hone
  have htape := h.tape.write hm h.ptr (t := { t with cycle := r.rcs }) h.rcs
    (by rw [Kind, h.ptr, if_neg hin.ne]; exact ht)
  have hne : m - 1 ≠ r.enqueuePtr := by omega
  unfold XhciRing.enqueue due
  split
  · rename_i hwrap
    have htwo := lap_succ hm (k := written.length + 1)
    rw [hone.1, hone.2, if_pos (by omega), ← h.rcs] at htwo
    have hlink : (r.trbs (m - 1)).setLink r.rcs = linkTrb base r.rcs := by
      rw [Trb.setLink, linkTrb, h.tape.target.1, h.tape.target.2]
    simp only [update_of_ne hne, hlink]
    have htape2 := htape.write hm (t := linkTrb base r.rcs) (i := m - 1)
      (by rw [length_append, length_singleton, hone.1, hwrap])
      (by rw [length_append, length_singleton, hone.2]; exact h.rcs)
      (by rw [Kind, length_append, length_singleton, hone.1, if_pos (by omega)]
          exact ⟨rfl, rfl, rfl, rfl⟩)
    rw [append_assoc] at htape2
    refine ⟨?_, by dsimp only; omega, ?_, htape2⟩ <;> rw [length_append]
    · exact htwo.1
    · exact htwo.2.symm
  · refine ⟨?_, by dsimp only; omega, ?_, htape⟩ <;> rw [length_append]
    · exact hone.1
    · exact h.rcs.trans hone.2.symm

structure Inv (m : Nat) (base : BitVec 64) (s : Bus) : Prop where
  stored : Stored m base s.ring s.written
  place : s.dequeuePtr = s.passed.length % m
  ccs : s.ccs = lap m s.passed.length
  passed : s.passed = s.written.take s.passed.length
  room : s.written.length ≤ s.passed.length + m

variable {s : Bus}

theorem Inv.passed_le (h : Inv m base s) : s.passed.length ≤ s.written.length := by
  rw [h.passed, length_take]
  omega

theorem Inv.enqueue (h : Inv m base s) {t : Trb} (hfits : Fits m base s (.enqueue t)) :
    Inv m base (busStep m base s (.enqueue t)).1 := by
  refine ⟨h.stored.enqueue hfits.1, h.place, h.ccs, ?_, hfits.2⟩
  show s.passed = (s.written ++ _).take s.passed.length
  rw [take_append_of_le_length h.passed_le]
  exact h.passed

/-- The controller passes the next TRB. -/
theorem Inv.fetch_more (h : Inv m base s) (hmore : s.passed.length < s.written.length) :
    s.fetch base = { s with
      dequeuePtr := (s.passed.length + 1) % m
      ccs := lap m (s.passed.length + 1)
      passed := s.written.take (s.passed.length + 1) } := by
  obtain ⟨hnext, hcycle, hkind⟩ := h.stored.tape.slots _ hmore h.room
  have htake : s.written.take (s.passed.length + 1) =
      s.passed ++ [s.ring.trbs (s.passed.length % m)] := by
    rw [take_add_one, hnext, ← h.passed]
    rfl
  have hlap := lap_succ (k := s.passed.length) (Nat.zero_lt_of_lt h.stored.inside)
  simp only [Bus.fetch, h.place, hcycle, h.ccs, ne_eq, not_true, if_false, htake]
  -- behind a Link TRB is the first place of the next lap
  unfold Kind at hkind
  split at hkind <;> rename_i hend
  · rw [if_pos hend] at hlap
    simp [hkind, hlap]
  · rw [if_neg hend] at hlap
    simp [hkind, hlap]

/-- Behind the last TRB is one of the lap before. -/
theorem Inv.fetch_none (h : Inv m base s) (hnone : s.passed.length = s.written.length) :
    s.fetch base = s := by
  have hin := h.stored.inside
  have hcycle := h.stored.tape.stale s.passed.length (by omega) (by omega)
    (by rw [hnone, h.stored.ptr]; exact hin.ne)
  rw [Bus.fetch, h.place, hcycle, h.ccs]
  simp

theorem Inv.fetch (h : Inv m base s) :
    Inv m base (s.fetch base) ∧ (s.fetch base).passed = s.written.take (s.passed.length + 1) := by
  have hroom := h.room
  rcases Nat.lt_or_eq_of_le h.passed_le with hmore | hnone
  · have hlen : (s.written.take (s.passed.length + 1)).length = s.passed.length + 1 := by
      rw [length_take]
      omega
    rw [h.fetch_more hmore]
    refine ⟨⟨h.stored, ?_, ?_, ?_, ?_⟩, rfl⟩ <;> dsimp only <;> rw [hlen]
    omega
  · rw [h.fetch_none hnone, take_of_length_le (by omega)]
    refine ⟨h, h.passed.trans ?_⟩
    rw [take_of_length_le hnone.ge]

/-- In every run the controller has passed the TRBs that were written, in their order and from the
first one on, and passes the next one in its next step, or none if there is none. -/
theorem ring_fifo {maxTrbs : Nat} (hmax : 2 ≤ maxTrbs) {acts : List BusAct}
    (hfits : Along (busStep maxTrbs base) (Fits maxTrbs base) (.boot maxTrbs base) acts) :
    let s := final (busStep maxTrbs base) (.boot maxTrbs base) acts
    s.passed = s.written.take s.passed.length ∧ s.dequeuePtr < maxTrbs ∧
      (s.fetch base).passed = s.written.take (s.passed.length + 1) := by
  have h : Inv maxTrbs base (final (busStep maxTrbs base) (.boot maxTrbs base) acts) := by
    refine final_invariant_along ?_ ⟨stored_init hmax, (Nat.zero_mod _).symm, ?_, rfl,
      Nat.zero_le _⟩ hfits
    swap
    · simp [Bus.boot, lap]
    rintro s (t | _) h hcond
    · exact h.enqueue hcond
    · exact h.fetch.1
  exact ⟨h.passed, h.place ▸ Nat.mod_lt _ (by omega), h.fetch.2⟩

theorem ring_fifo_wraps :
    let t : Trb := ⟨7, 0, false, 0, 1, 0⟩
    let s := final (busStep 2 0) (.boot 2 0) [.enqueue t, .fetch, .fetch, .enqueue t]
    s.passed = s.written.take s.passed.length :=
  (ring_fifo (by decide) (by decide)).1

/-- A ring with one place for TRBs: the controller is at the Link TRB when the second TRB comes,
and never consumes it. -/
theorem ring_stuck_at_link :
    let t : Trb := ⟨7, 0, false, 0, 1, 0⟩
    let acts := [.enqueue t, .fetch, .enqueue t]
    let s := final (busStep 2 0) (.boot 2 0) acts
    (∀ k ≤ 3, (final (busStep 2 0) (.boot 2 0) (acts.take k)).outstanding.length ≤ 2 - 1) ∧
      s.fetch 0 = s ∧ s.outstanding ≠ [] :=
  ⟨by decide, rfl, by decide⟩

end Vespera.Usb
