import Vespera.Memory.Areas

/-! # The search for free addresses

`find_free_range` starts at `MMAP_BASE` and hops over the areas that it meets. It looks only at
areas that start where it is or later, so an area that reaches over the place from below is not
seen; and when the last gap before `MMAP_END` is too small and no area follows, it does not move on
and never returns.

Where the areas let the search go is said on the areas alone: `Counts`, `Place` and `Roomy`.

* `findFreeRange_finds_iff`: the search returns a free range, or 0 if there is none, exactly when
  there is a place with room or an area at the very end of the region, and no area reaches over the
  lowest place with room.
-/

namespace Vespera.Memory

namespace VmSt

variable {vs : List VmArea} {length : Nat}

/-- A range of the region that no area touches. -/
structure FreeAt (vs : List VmArea) (length r : Nat) : Prop where
  aligned : pageSize ∣ r
  above : mmapBase ≤ r
  below : r + length ≤ mmapEnd
  apart : ∀ v ∈ vs, v.top ≤ r ∨ r + length ≤ v.start

/-- The search from `current` on returns, with a free range or with 0 if there is none. -/
def FindsFrom (vs : List VmArea) (length current : Nat) : Prop :=
  ∃ fuel r, findFreeRange vs length fuel current = some r ∧ (r ≠ 0 → FreeAt vs length r) ∧
    (r = 0 → ∀ a, ¬ FreeAt vs length a)

/-! ## The condition -/

/-- An area of the region, unless it begins in the last page of one before it that counts. -/
def Counts (vs : List VmArea) (w : VmArea) : Prop :=
  mmapBase ≤ w.start ∧ ∀ v ∈ vs, v.start < w.start → Counts vs v → alignUp v.top ≤ w.start
termination_by w.start

/-- The start of the region, and the first page behind each area that counts. -/
inductive Place (vs : List VmArea) : Nat → Prop
  | base : Place vs mmapBase
  | behind {v : VmArea} (hv : v ∈ vs) (hcounts : Counts vs v) : Place vs (alignUp v.top)

/-- The `length` bytes from `p` on are in the region, and no area starts in them. -/
def Roomy (vs : List VmArea) (length p : Nat) : Prop :=
  p + length ≤ mmapEnd ∧ ∀ v ∈ vs, p ≤ v.start → p + length ≤ v.start

/-- The areas let the search through. -/
structure Clear (vs : List VmArea) (length : Nat) : Prop where
  /-- There is a place with room, or an area that counts ends in the last page of the region or
  behind it. -/
  ends : (∃ p, Place vs p ∧ Roomy vs length p) ∨
    ∃ v ∈ vs, Counts vs v ∧ v.start ≤ mmapEnd ∧ mmapEnd ≤ alignUp v.top
  /-- No area reaches over the lowest place with room. -/
  fits : ∀ p, Place vs p → Roomy vs length p → (∀ q, Place vs q → Roomy vs length q → p ≤ q) →
    ∀ v ∈ vs, v.start < p → v.top ≤ p

/-! ## The search -/

theorem lt_alignUp_top (h : AreasOk vs) {v : VmArea} (hv : v ∈ vs) : v.start < alignUp v.top :=
  Nat.lt_of_lt_of_le (h.proper v hv).1 (le_alignUp (h.proper v hv).2)

theorem Place.base_le (h : AreasOk vs) {p : Nat} (hp : Place vs p) : mmapBase ≤ p := by
  cases hp with
  | base => exact Nat.le_refl _
  | behind hv hcounts =>
    rw [Counts] at hcounts
    exact Nat.le_trans hcounts.1 (Nat.le_of_lt (lt_alignUp_top h hv))

/-- What is known when the search comes to `c`. -/
structure Reached (vs : List VmArea) (length c : Nat) : Prop where
  place : Place vs c
  /-- Lower places have no room. -/
  lower : ∀ q, Place vs q → q < c → ¬ Roomy vs length q
  /-- The areas that count are behind or ahead. -/
  split : ∀ v ∈ vs, Counts vs v → c ≤ v.start ∨ alignUp v.top ≤ c

theorem reached_base (h : AreasOk vs) : Reached vs length mmapBase := by
  refine ⟨.base, fun q hq hlt => absurd (hq.base_le h) (Nat.not_le_of_lt hlt), fun v _ hcounts => ?_⟩
  rw [Counts] at hcounts
  exact .inl hcounts.1

/-- The next area counts: those that count and start before it end before the search's place. -/
theorem Reached.counts {c : Nat} (hr : Reached vs length c) (h : AreasOk vs) {v : VmArea}
    (hcv : c ≤ v.start) (hfirst : ∀ w ∈ vs, c ≤ w.start → v.start ≤ w.start) : Counts vs v := by
  have hbase := hr.place.base_le h
  rw [Counts]
  refine ⟨by omega, fun w hw hlt hcounts => ?_⟩
  rcases hr.split w hw hcounts with hahead | hbehind
  · have := hfirst w hw hahead
    omega
  · omega

/-- The search hops from a place without room over the next area. -/
theorem Reached.hop {c : Nat} (hr : Reached vs length c) (h : AreasOk vs)
    (hfull : ¬ Roomy vs length c) {v : VmArea} (hv : v ∈ vs) (hcv : c ≤ v.start)
    (hfirst : ∀ w ∈ vs, c ≤ w.start → v.start ≤ w.start) : Reached vs length (alignUp v.top) := by
  have hcounts := hr.counts h hcv hfirst
  have htop := lt_alignUp_top h hv
  -- an area that counts is behind `c`, is `v`, or starts behind `v`
  have hsplit : ∀ w ∈ vs, Counts vs w →
      alignUp w.top ≤ c ∨ w = v ∨ alignUp v.top ≤ w.start := by
    intro w hw hwcounts
    rcases hr.split w hw hwcounts with hahead | hbehind
    · by_cases hwv : w = v
      · exact .inr (.inl hwv)
      have hvw := hfirst w hw hahead
      have hwproper := (h.proper w hw).1
      have hvproper := (h.proper v hv).1
      have hlt : v.start < w.start := by
        rcases h.apart_of_ne hw hv hwv with hapart | hapart <;> omega
      rw [Counts] at hwcounts
      exact .inr (.inr (hwcounts.2 v hv hlt hcounts))
    · exact .inl hbehind
  have hnot : ∀ q, Place vs q → q ≤ c → ¬ Roomy vs length q := by
    intro q hq hle
    rcases Nat.eq_or_lt_of_le hle with rfl | hlt
    · exact hfull
    · exact hr.lower q hq hlt
  refine ⟨.behind hv hcounts, fun q hq hlt => ?_, fun w hw hwcounts => ?_⟩
  · cases hq with
    | base => exact hnot _ .base (hr.place.base_le h)
    | @behind w hw hwcounts =>
      rcases hsplit w hw hwcounts with hbehind | rfl | hahead
      · exact hnot _ (.behind hw hwcounts) hbehind
      · exact absurd hlt (Nat.lt_irrefl _)
      · have := lt_alignUp_top h hw
        omega
  · rcases hsplit w hw hwcounts with hbehind | rfl | hahead
    · exact .inr (by omega)
    · exact .inr (Nat.le_refl _)
    · exact .inl hahead

/-- The next start is the end of the region unless an area has it. -/
theorem nextStart_eq_mmapEnd {c : Nat} (hnone : ∀ v ∈ vs, v.start ≠ nextStart vs c) :
    nextStart vs c = mmapEnd := by
  have hfold : ∀ (ws : List VmArea) (best : Nat), ws.foldl (fun best v =>
      if v.start ≥ c ∧ v.start < best then v.start else best) best = best ∨
      ∃ v ∈ ws, v.start = ws.foldl (fun best v =>
        if v.start ≥ c ∧ v.start < best then v.start else best) best := by
    intro ws
    induction ws with
    | nil => exact fun best => .inl rfl
    | cons w ws ih =>
      intro best
      rw [List.foldl_cons]
      rcases ih (if w.start ≥ c ∧ w.start < best then w.start else best) with heq | ⟨v, hv, heq⟩
      · split at heq
        · next hw => exact .inr ⟨w, List.mem_cons_self, by rw [if_pos hw, heq]⟩
        · next hw => exact .inl (by rw [if_neg hw, heq])
      · exact .inr ⟨v, List.mem_cons_of_mem w hv, heq⟩
  rcases hfold vs mmapEnd with heq | ⟨v, hv, heq⟩
  · exact heq
  · exact absurd heq (hnone v hv)

section

variable {c : Nat} (hr : Reached vs length c) (h : AreasOk vs)

include hr h

/-- The search ends at a place with room, which is the lowest. -/
theorem Reached.finds_iff (hdvd : pageSize ∣ c) (hroomy : Roomy vs length c)
    (hret : ∀ fuel, findFreeRange vs length (fuel + 1) c = some c) :
    FindsFrom vs length c ↔ Clear vs length := by
  have hbase := hr.place.base_le h
  have hpos : c ≠ 0 := Nat.ne_of_gt (Nat.lt_of_lt_of_le (by decide) hbase)
  have hlowest : ∀ q, Place vs q → Roomy vs length q → c ≤ q := fun q hq hq' =>
    Nat.le_of_not_lt fun hlt => hr.lower q hq hlt hq'
  constructor
  · rintro ⟨fuel, r, hret', hfree, -⟩
    cases fuel with
    | zero => cases hret'
    | succ fuel =>
      rw [hret] at hret'
      cases hret'
      refine ⟨.inl ⟨c, hr.place, hroomy⟩, fun p hp hproomy hplow v hv hlt => ?_⟩
      obtain rfl : p = c := Nat.le_antisymm (hplow c hr.place hroomy) (hlowest p hp hproomy)
      rcases (hfree hpos).apart v hv with hv' | hv' <;> omega
  · intro hclear
    refine ⟨1, c, hret 0, fun _ => ⟨hdvd, hbase, hroomy.1, fun v hv => ?_⟩,
      fun hzero => absurd hzero hpos⟩
    rcases Nat.lt_or_ge v.start c with hlt | hge
    · exact .inl (hclear.fits c hr.place hroomy hlowest v hv hlt)
    · exact .inr (hroomy.2 v hv hge)

/-- With nothing to hop over the search stays where it is. -/
theorem Reached.stuck_iff (hc : c < mmapEnd) (hfull : mmapEnd < c + length)
    (hahead : ∀ v ∈ vs, c ≤ v.start → mmapEnd < v.start)
    (hstay : ∀ fuel, findFreeRange vs length (fuel + 1) c = findFreeRange vs length fuel c) :
    FindsFrom vs length c ↔ Clear vs length := by
  have hstuck : ∀ fuel, findFreeRange vs length fuel c = none := by
    intro fuel
    induction fuel with
    | zero => rfl
    | succ fuel ih => rw [hstay, ih]
  -- all areas that count and start in the region are behind
  have hbehind : ∀ v ∈ vs, Counts vs v → mmapEnd < v.start ∨ alignUp v.top ≤ c :=
    fun v hv hcounts => (hr.split v hv hcounts).imp_left (hahead v hv)
  constructor
  · rintro ⟨fuel, r, hret, -⟩
    rw [hstuck] at hret
    cases hret
  intro hclear
  rcases hclear.ends with ⟨p, hp, hroom⟩ | ⟨v, hv, hcounts, hle, hpast⟩
  · rcases Nat.lt_trichotomy p c with hlt | rfl | hgt
    · exact absurd hroom (hr.lower p hp hlt)
    · have := hroom.1
      omega
    · cases hp with
      | base => exact absurd (hr.place.base_le h) (Nat.not_le_of_lt hgt)
      | @behind v hv hcounts =>
        have := hroom.1
        have := lt_alignUp_top h hv
        rcases hbehind v hv hcounts with hout | hbehind <;> omega
  · rcases hbehind v hv hcounts with hout | hbehind <;> omega

end

/-- An area ahead is no longer ahead after the hop over it. -/
theorem ahead_lt {v : VmArea} {c d : Nat} (hv : v ∈ vs) (hcv : c ≤ v.start) (hvd : v.start < d) :
    (vs.filter fun w => d ≤ w.start).length < (vs.filter fun w => c ≤ w.start).length := by
  have hsub : vs.filter (fun w => d ≤ w.start) =
      (vs.filter fun w => c ≤ w.start).filter fun w => d ≤ w.start := by
    rw [List.filter_filter]
    refine List.filter_congr fun w _ => ?_
    rw [← Bool.decide_and]
    exact decide_eq_decide.mpr ⟨fun hw => ⟨hw, by omega⟩, And.left⟩
  rw [hsub]
  refine List.length_filter_lt_length_iff_exists.mpr ⟨v, ?_, ?_⟩
  · exact List.mem_filter.mpr ⟨hv, decide_eq_true hcv⟩
  · rw [decide_eq_true_eq]
    omega

/-- The search from a place that it comes to, with no free range below it. The induction is on the
areas that start there or later. -/
theorem findsFrom_iff (h : AreasOk vs) (hle : length ≤ 2 ^ 46) {c : Nat}
    (hr : Reached vs length c) (hc : c < mmapEnd) (hdvd : pageSize ∣ c)
    (hlow : ∀ a, FreeAt vs length a → c ≤ a) : FindsFrom vs length c ↔ Clear vs length := by
  induction hk : (vs.filter fun v => c ≤ v.start).length using Nat.strong_induction_on
    generalizing c with
  | _ k ih =>
  obtain ⟨hnext, hend, hfirst⟩ := nextStart_spec vs (Nat.le_of_lt hc)
  rcases findFreeRange_round h (Nat.le_trans hle (by decide)) hc with
    ⟨hroom, hret⟩ | ⟨hfull, ⟨hnone, hstay⟩ | ⟨v, hv, hstart, hstep⟩⟩
  · exact hr.finds_iff h hdvd
      ⟨Nat.le_trans hroom hend, fun v hv hcv => Nat.le_trans hroom (hfirst v hv hcv)⟩ hret
  · have hlast := nextStart_eq_mmapEnd hnone
    rw [hlast] at hnone hfull hfirst
    refine hr.stuck_iff h hc hfull (fun v hv hcv => ?_) hstay
    exact Nat.lt_of_le_of_ne (hfirst v hv hcv) (hnone v hv).symm
  have hcv : c ≤ v.start := hstart ▸ hnext
  have hvfirst : ∀ w ∈ vs, c ≤ w.start → v.start ≤ w.start := fun w hw hw' => hstart ▸ hfirst w hw hw'
  have hroom : ¬ Roomy vs length c := fun hroom => by
    have := hroom.2 v hv hcv
    omega
  have hnew := hr.hop h hroom hv hcv hvfirst
  obtain ⟨hproper, hbound⟩ := h.proper v hv
  have hup : v.top ≤ alignUp v.top := le_alignUp hbound
  -- a free range is behind the area
  have hlow' : ∀ a, FreeAt vs length a → alignUp v.top ≤ a := by
    intro a ha
    have hca := hlow a ha
    have hbelow := ha.below
    refine alignUp_le_of_dvd ?_ ha.aligned (Nat.le_trans (Nat.le_of_lt (by omega :
      a < mmapEnd)) (by decide))
    rcases ha.apart v hv with hapart | hapart
    · exact hapart
    · omega
  by_cases hpast : mmapEnd ≤ alignUp v.top
  · -- the search returns 0, and no place has room
    refine iff_of_true ⟨1, 0, by rw [hstep, if_pos hpast], fun hne => absurd rfl hne, fun _ a ha => ?_⟩
      ⟨.inr ⟨v, hv, hr.counts h hcv hvfirst, by omega, hpast⟩, fun p hp hproom => ?_⟩
    · have := hlow' a ha
      have := ha.below
      omega
    · have := hproom.1
      exact absurd hproom (hnew.lower p hp (by omega))
  have hsame : FindsFrom vs length c ↔ FindsFrom vs length (alignUp v.top) := by
    constructor
    · rintro ⟨fuel, r, hret, hres⟩
      cases fuel with
      | zero => cases hret
      | succ fuel =>
        rw [hstep, if_neg hpast] at hret
        exact ⟨fuel, r, hret, hres⟩
    · rintro ⟨fuel, r, hret, hres⟩
      exact ⟨fuel + 1, r, by rw [hstep, if_neg hpast]; exact hret, hres⟩
  rw [hsame]
  exact ih _ (hk ▸ ahead_lt hv hcv (lt_alignUp_top h hv)) hnew (Nat.lt_of_not_le hpast) (alignUp_dvd _) hlow' rfl

/-- The search is right exactly for the areas and lengths that let it through. -/
theorem findFreeRange_finds_iff (h : AreasOk vs) (hle : length ≤ 2 ^ 46) :
    FindsFrom vs length mmapBase ↔ Clear vs length :=
  findsFrom_iff h hle (reached_base h) (by decide) (by decide) fun _ ha => ha.above

/-- An area of three bytes at the start of the region, and before it in the list one in the page
behind it. -/
def twoAreas : List VmArea :=
  [⟨mmapBase + pageSize, 100, 0, 0, 0, 0, none⟩, ⟨mmapBase, 3, 0, 0, 0, 0, none⟩]

/-- Behind the two areas there is room. -/
theorem findFreeRange_finds_iff_first : FindsFrom twoAreas pageSize mmapBase := by
  have hok : AreasOk twoAreas := by
    refine Lib.Span.ok_cons.mpr ⟨by decide, areasOk_single.mpr (by decide), fun w hw => ?_⟩
    rw [List.mem_singleton.mp hw]
    decide
  have hcounts : Counts twoAreas ⟨mmapBase + pageSize, 100, 0, 0, 0, 0, none⟩ := by
    rw [Counts]
    have hbefore : ∀ v ∈ twoAreas, v.start < mmapBase + pageSize →
        alignUp v.top ≤ mmapBase + pageSize := by decide
    exact ⟨by decide, fun v hv hlt _ => hbefore v hv hlt⟩
  have hroom : Roomy twoAreas pageSize (alignUp (mmapBase + pageSize + 100)) := by
    unfold Roomy
    decide
  refine (findFreeRange_finds_iff hok (by decide)).mpr
    ⟨.inl ⟨_, .behind List.mem_cons_self hcounts, hroom⟩, fun p hp hproom _ => ?_⟩
  cases hp with
  | base =>
    unfold Roomy at hproom
    exact absurd hproom (by decide)
  | @behind v hv _ =>
    rcases List.mem_cons.mp hv with rfl | hv
    · decide
    rw [List.mem_singleton.mp hv] at hproom
    unfold Roomy at hproom
    exact absurd hproom (by decide)

/-- Without areas and with a length that does not fit the search never returns. An area that starts
one page below the region is not seen, and the range it reaches into is returned. -/
theorem findFreeRange_stuck_or_overlapping :
    (∀ fuel, findFreeRange [] (2 ^ 46) fuel mmapBase = none) ∧
      findFreeRange [⟨mmapBase - pageSize, 2 * pageSize, 0, 0, 0, 0, none⟩] pageSize 1 mmapBase =
        some mmapBase ∧
      ¬ FreeAt [⟨mmapBase - pageSize, 2 * pageSize, 0, 0, 0, 0, none⟩] pageSize mmapBase := by
  refine ⟨fun fuel => ?_, by decide, fun hfree => absurd (hfree.apart _ List.mem_cons_self) (by decide)⟩
  induction fuel with
  | zero => rfl
  | succ fuel ih => rw [findFreeRange]; exact ih

end VmSt

end Vespera.Memory
