import Vespera.Memory.AreaMap
import Vespera.Memory.FrameUse

/-! # The areas of a unit

The areas of a unit should not overlap, should not be empty and should lie in the user half, and
no call should write a page-table entry for the kernel half. The code keeps this only for
arguments that are reasonable: it takes a hint as it is, lets lengths and ends wrap, and lets the
heap grow over other areas.

Main results:

* `findFreeRange_spec`: the search finds a range that no area touches, if the areas above
  `MMAP_BASE` are pages;
* `step_tidy`: a step whose arguments fit keeps the areas and the page tables in order;
* `areas_well_formed`: so they are in order in every run of such steps.
-/

namespace Vespera.Memory

open List Lib

/-! ## Areas -/

namespace VmSt

/-- The areas do not overlap, are not empty and lie in the user half. -/
abbrev AreasOk (vs : List VmArea) : Prop := Span.Ok VmArea.start VmArea.top userEnd vs

variable {st st' : VmSt} {v w : VmArea} {vs ws : List VmArea} {base stop addr length : Nat}

theorem AreasOk.end_eq (h : AreasOk vs) (hv : v ∈ vs) : v.end = v.top := by
  have htop := (h.proper v hv).2
  refine Nat.mod_eq_of_lt (Nat.lt_of_le_of_lt htop ?_)
  decide

theorem areasOk_single : AreasOk [v] ↔ v.start < v.top ∧ v.top ≤ userEnd := by
  rw [AreasOk, Span.ok_cons]
  exact ⟨fun h => h.1, fun h => ⟨h, Span.ok_nil, fun _ hb => nomatch hb⟩⟩

/-! ## find_free_range -/

theorem le_alignUp {n : Nat} (h : n ≤ userEnd) : n ≤ alignUp n := by
  have hpage : pageSize = 4096 := rfl
  have hlt : n + pageSize - 1 < 2 ^ 64 := by
    have : userEnd = 0x800000000000 := rfl
    omega
  rw [alignUp, Nat.mod_eq_of_lt hlt, alignDown]
  have := Nat.lt_div_mul_add (a := n + pageSize - 1) (b := pageSize) (by decide)
  omega

theorem alignUp_le_of_dvd {n m : Nat} (h : n ≤ m) (hm : pageSize ∣ m) (hbound : m ≤ userEnd) :
    alignUp n ≤ m := by
  have hpage : pageSize = 4096 := rfl
  have hlt : n + pageSize - 1 < 2 ^ 64 := by
    have : userEnd = 0x800000000000 := rfl
    omega
  obtain ⟨k, rfl⟩ := hm
  rw [alignUp, Nat.mod_eq_of_lt hlt, alignDown, Nat.mul_comm]
  refine Nat.mul_le_mul_left _ (Nat.lt_succ_iff.mp ?_)
  rw [Nat.div_lt_iff_lt_mul (by decide), Nat.succ_mul, Nat.mul_comm]
  omega

/-- The next start is the lowest one from `current` on. -/
theorem nextStart_spec (vs : List VmArea) {current : Nat} (hcur : current ≤ mmapEnd) :
    current ≤ nextStart vs current ∧ nextStart vs current ≤ mmapEnd ∧
      ∀ v ∈ vs, current ≤ v.start → nextStart vs current ≤ v.start := by
  -- the running minimum, from any value on
  have hfold : ∀ (vs : List VmArea) (best : Nat), current ≤ best →
      current ≤ vs.foldl (fun best v =>
          if v.start ≥ current ∧ v.start < best then v.start else best) best ∧
        vs.foldl (fun best v =>
          if v.start ≥ current ∧ v.start < best then v.start else best) best ≤ best ∧
        ∀ v ∈ vs, current ≤ v.start → vs.foldl (fun best v =>
          if v.start ≥ current ∧ v.start < best then v.start else best) best ≤ v.start := by
    intro vs
    induction vs with
    | nil =>
      intro best hbest
      exact ⟨hbest, Nat.le_refl _, fun v hv => nomatch hv⟩
    | cons w vs ih =>
      intro best hbest
      rw [foldl_cons]
      have hstep : current ≤ (if w.start ≥ current ∧ w.start < best then w.start else best) ∧
          (if w.start ≥ current ∧ w.start < best then w.start else best) ≤ best ∧
          (current ≤ w.start →
            (if w.start ≥ current ∧ w.start < best then w.start else best) ≤ w.start) := by
        split_ifs <;> omega
      obtain ⟨hlow, hle, hall⟩ := ih _ hstep.1
      refine ⟨hlow, Nat.le_trans hle hstep.2.1, fun v hv hv' => ?_⟩
      rcases mem_cons.mp hv with rfl | hv
      · exact Nat.le_trans hle (hstep.2.2 hv')
      · exact hall v hv hv'
  exact hfold vs mmapEnd hcur

/-- The areas above `MMAP_BASE` start at pages, and none reaches over it. -/
def AboveMmapBase (vs : List VmArea) : Prop :=
  ∀ v ∈ vs, v.top ≤ mmapBase ∨ (mmapBase ≤ v.start ∧ pageSize ∣ v.start)

instance (vs : List VmArea) : Decidable (AboveMmapBase vs) :=
  inferInstanceAs (Decidable (∀ v ∈ vs, _ ∨ _))

/-- One round of the search: it returns, finds nothing to hop over, or goes on behind the next
area. -/
theorem findFreeRange_round (h : AreasOk vs) {current : Nat} (hlen : length ≤ userEnd)
    (hcur : current < mmapEnd) : (current + length ≤ nextStart vs current ∧
      ∀ fuel, findFreeRange vs length (fuel + 1) current = some current) ∨
    nextStart vs current < current + length ∧ (((∀ v ∈ vs, v.start ≠ nextStart vs current) ∧
        ∀ fuel, findFreeRange vs length (fuel + 1) current = findFreeRange vs length fuel current) ∨
      ∃ v ∈ vs, v.start = nextStart vs current ∧
        ∀ fuel, findFreeRange vs length (fuel + 1) current = if alignUp v.top ≥ mmapEnd then some 0
          else findFreeRange vs length fuel (alignUp v.top)) := by
  have hmod : (current + length) % 2 ^ 64 = current + length := by
    have : userEnd = 0x800000000000 := rfl
    have : mmapEnd = 0x7FFFFF000000 := rfl
    exact Nat.mod_eq_of_lt (by omega)
  obtain ⟨-, hend, -⟩ := nextStart_spec vs (Nat.le_of_lt hcur)
  by_cases hroom : current + length ≤ nextStart vs current
  · refine .inl ⟨hroom, fun fuel => ?_⟩
    rw [findFreeRange]
    simp only [hmod]
    rw [if_pos hroom, if_pos (Nat.le_trans hroom hend)]
  refine .inr ⟨Nat.lt_of_not_le hroom, ?_⟩
  cases hfind : vs.find? fun v => v.start = nextStart vs current with
  | none =>
    refine .inl ⟨fun v hv => by simpa using find?_eq_none.mp hfind v hv, fun fuel => ?_⟩
    rw [findFreeRange]
    simp only [hmod, hfind]
    rw [if_neg hroom, if_neg (Nat.not_le_of_lt hcur)]
  | some v =>
    have hv : v ∈ vs := mem_of_find?_eq_some hfind
    have hvstart : v.start = nextStart vs current := by simpa using find?_some hfind
    have htop : (nextStart vs current + v.length) % 2 ^ 64 = v.top := by
      rw [← hvstart]
      exact h.end_eq hv
    refine .inr ⟨v, hv, hvstart, fun fuel => ?_⟩
    rw [findFreeRange]
    simp only [hmod, hfind, htop]
    rw [if_neg hroom]

/-- The search finds a range that no area touches. What carries it is that every area that starts
below `current` ends there or before. -/
theorem findFreeRange_spec (h : AreasOk vs) (hpages : AboveMmapBase vs) (hlen : length ≤ userEnd)
    {fuel current r : Nat} (hcur : mmapBase ≤ current) (hcur' : current < mmapEnd)
    (hdvd : pageSize ∣ current) (hbelow : ∀ v ∈ vs, v.start < current → v.top ≤ current)
    (hr : findFreeRange vs length fuel current = some r) (hne : r ≠ 0) :
    pageSize ∣ r ∧ r + length ≤ mmapEnd ∧ ∀ v ∈ vs, v.top ≤ r ∨ r + length ≤ v.start := by
  induction fuel generalizing current with
  | zero => cases hr
  | succ fuel ih =>
    obtain ⟨hlow, hend, hstart⟩ := nextStart_spec vs (Nat.le_of_lt hcur')
    rcases findFreeRange_round h hlen hcur' with
      ⟨hfits, hret⟩ | ⟨-, ⟨-, hstay⟩ | ⟨v, hv, hvstart, hhop⟩⟩
    · -- the range before the next area
      rw [hret] at hr
      rw [← Option.some.inj hr]
      refine ⟨hdvd, Nat.le_trans hfits hend, fun v hv => ?_⟩
      rcases Nat.lt_or_ge v.start current with hlt | hge
      · exact .inl (hbelow v hv hlt)
      · exact .inr (Nat.le_trans hfits (hstart v hv hge))
    · rw [hstay] at hr
      exact ih hcur hcur' hdvd hbelow hr
    -- past the area that is in the way
    rw [hhop] at hr
    split_ifs at hr with hpast
    · cases hr
      exact absurd rfl hne
    have hup : v.top ≤ alignUp v.top := le_alignUp (h.proper v hv).2
    have hproper := (h.proper v hv).1
    refine ih (by omega) (by omega) (alignUp_dvd _) (fun w hw hlt => ?_) hr
    rcases Nat.lt_or_ge w.start current with hold | hge
    · have := hbelow w hw hold
      omega
    -- an area from `current` on that is not the one in the way begins behind it
    by_cases hvw : w = v
    · rw [hvw]
      exact hup
    have hapart := h.apart_of_ne hw hv hvw
    have hwproper := (h.proper w hw).1
    have hge' := hstart w hw hge
    rcases hpages w hw with hlow' | ⟨-, hdvd'⟩
    · omega
    have hbehind : v.top ≤ w.start := by
      rcases hapart with hapart | hapart
      · omega
      · exact hapart
    have := alignUp_le_of_dvd hbehind hdvd' (Nat.le_trans (Nat.le_of_lt hwproper) (h.proper w hw).2)
    omega

/-! ## The heap -/

theorem updateArea_some {f : VmArea → List VmArea} (h : updateArea addr f vs = some ws) :
    ∃ pre v post, vs = pre ++ v :: post ∧ ws = pre ++ (f v ++ post) ∧ v.start ≤ addr ∧
      addr ≤ v.end := by
  induction vs generalizing ws with
  | nil => cases h
  | cons v vs ih =>
    rw [updateArea] at h
    split_ifs at h with hv
    · exact ⟨[], v, vs, rfl, (Option.some.inj h).symm, hv⟩
    · obtain ⟨ws', hws', rfl⟩ := Option.map_eq_some_iff.mp h
      obtain ⟨pre, w, post, rfl, rfl, hw⟩ := ih hws'
      exact ⟨v :: pre, w, post, rfl, rfl, hw⟩

/-- An area in the middle of the list is replaced by at most one. -/
theorem AreasOk.update {pre post : List VmArea} (h : AreasOk (pre ++ v :: post)) {ps : List VmArea}
    (hps : AreasOk ps)
    (hapart : ∀ p ∈ ps, ∀ w ∈ pre ++ post, Span.Apart VmArea.start VmArea.top p w) :
    AreasOk (pre ++ (ps ++ post)) := by
  have hswap : (pre ++ v :: post).Perm (v :: (pre ++ post)) := perm_middle
  obtain ⟨-, hrest, -⟩ := Span.ok_cons.mp (h.perm hswap)
  have hall : AreasOk (ps ++ (pre ++ post)) := Span.ok_append.mpr ⟨hps, hrest, hapart⟩
  refine hall.perm ?_
  have hcomm : (ps ++ pre).Perm (pre ++ ps) := perm_append_comm
  simpa only [append_assoc] using hcomm.append_right post

/-- What is apart from an area is apart from the others of the list. -/
theorem AreasOk.apart_middle {pre post : List VmArea} (h : AreasOk (pre ++ v :: post)) :
    ∀ w ∈ pre ++ post, Span.Apart VmArea.start VmArea.top v w := by
  have hswap : (pre ++ v :: post).Perm (v :: (pre ++ post)) := perm_middle
  exact (Span.ok_cons.mp (h.perm hswap)).2.2

/-- The heap grows into addresses that no area touches. -/
theorem growAreas_ok {x : VmUnit} (h : AreasOk x.vmas) (hgrow : x.heapEnd < addr)
    (haddr : addr ≤ userHeapMax) (hfits : ∀ v ∈ x.vmas, v.start < addr → v.top ≤ x.heapEnd) :
    AreasOk (growAreas x addr) := by
  have hbound : addr ≤ userEnd := Nat.le_trans haddr (by decide)
  unfold growAreas
  split
  · rename_i vmas hvmas
    obtain ⟨pre, v, post, hlist, rfl, hstart, hend⟩ := updateArea_some hvmas
    rw [hlist] at h hfits
    have hv : v ∈ pre ++ v :: post := mem_append_right _ mem_cons_self
    have hnew := top_cut (hstart.trans hgrow.le)
    have hnew' : ({ v with length := addr - v.start } : VmArea).start = v.start := rfl
    refine h.update (areasOk_single.mpr ⟨by omega, by omega⟩) fun p hp w hw => ?_
    rw [mem_singleton.mp hp]
    have hw' : w ∈ pre ++ v :: post := by
      rcases mem_append.mp hw with hw | hw
      · exact mem_append_left _ hw
      · exact mem_append_right _ (mem_cons_of_mem v hw)
    -- another area is below the old one, or above the new end
    have hproper := (h.proper w hw').1
    rw [h.end_eq hv] at hend
    rcases h.apart_middle w hw with hapart | hapart
    · rcases Nat.lt_or_ge w.start addr with hlt | hge
      · have := hfits w hw' hlt
        omega
      · exact .inl (by omega)
    · exact .inr (by omega)
  have hnew : (⟨x.heapEnd, addr - x.heapEnd, 0, 0, 0, 0, none⟩ : VmArea).top = addr := by
    show x.heapEnd + (addr - x.heapEnd) = addr
    omega
  have hnew' : (⟨x.heapEnd, addr - x.heapEnd, 0, 0, 0, 0, none⟩ : VmArea).start = x.heapEnd := rfl
  refine Span.ok_cons.mpr ⟨⟨by omega, by omega⟩, h, fun w hw => ?_⟩
  rcases Nat.lt_or_ge w.start addr with hlt | hge
  · exact .inr (by rw [hnew']; exact hfits w hw hlt)
  · exact .inl (by rw [hnew]; exact hge)

/-- A heap that shrinks cuts the area that it ends in. -/
theorem shrinkAreas_ok {x : VmUnit} (h : AreasOk x.vmas) : AreasOk (shrinkAreas x addr) := by
  unfold shrinkAreas
  cases hvmas : updateArea addr (fun v =>
      if addr - v.start = 0 then [] else [{ v with length := addr - v.start }]) x.vmas with
  | none => exact h
  | some vmas =>
    obtain ⟨pre, v, post, hlist, rfl, hstart, hend⟩ := updateArea_some hvmas
    rw [hlist] at h
    have hv : v ∈ pre ++ v :: post := mem_append_right _ mem_cons_self
    rw [h.end_eq hv] at hend
    have hbound := (h.proper v hv).2
    split_ifs with hzero
    · exact h.update Span.ok_nil fun p hp => nomatch hp
    have hnew := top_cut hstart
    have hnew' : ({ v with length := addr - v.start } : VmArea).start = v.start := rfl
    refine h.update (areasOk_single.mpr ⟨by omega, by omega⟩) fun p hp w hw => ?_
    rw [mem_singleton.mp hp]
    exact (h.apart_middle w hw).inside ⟨Nat.le_refl _, by omega⟩ (.refl w)

/-! ## The calls -/

/-- The areas of all units are in order. -/
def UnitsOk (st : VmSt) : Prop := ∀ u x, st.unit u = some x → AreasOk x.vmas

theorem UnitsOk.setUnit (h : st.UnitsOk) {u : Nat} {x : VmUnit} (hx : AreasOk x.vmas) :
    (st.setUnit u x).UnitsOk := by
  intro u' x' hx'
  rcases update_eq_some hx' with ⟨-, ⟨⟩⟩ | ⟨-, hold⟩
  · exact hx
  · exact h u' x' hold

theorem UnitsOk.congr (h : st.UnitsOk) (hunit : st'.unit = st.unit) : st'.UnitsOk := by
  intro u x hx
  exact h u x (hunit ▸ hx)

/-- What `mmap` needs of the range it is asked for: it is not empty, and it is either free and in
the user half, or left to the search. -/
def MmapFits (vs : List VmArea) (addr length : Nat) : Prop :=
  0 < length ∧ length ≤ userEnd ∧
    if addr = 0 then AboveMmapBase vs
    else addr + length ≤ userEnd ∧ ∀ v ∈ vs, v.top ≤ addr ∨ addr + length ≤ v.start

instance (vs : List VmArea) (addr length : Nat) : Decidable (MmapFits vs addr length) := by
  unfold MmapFits
  infer_instance

/-- The range that `mmap` uses. -/
theorem mmap_base {x : VmUnit} (h : AreasOk x.vmas)
    (hdvd : pageSize ∣ addr) (hfits : MmapFits x.vmas addr length)
    (hbase : (if addr ≠ 0 then some addr
      else findFreeRange x.vmas length (x.vmas.length + 1) mmapBase) = some base) (hne : base ≠ 0) :
    pageSize ∣ base ∧ base + length ≤ userEnd ∧
      ∀ v ∈ x.vmas, v.top ≤ base ∨ base + length ≤ v.start := by
  obtain ⟨-, hlen, hfits⟩ := hfits
  by_cases haddr : addr = 0
  · rw [if_pos haddr] at hfits
    rw [if_neg (not_not.mpr haddr)] at hbase
    have hbelow : ∀ v ∈ x.vmas, v.start < mmapBase → v.top ≤ mmapBase := by
      intro v hv hlt
      rcases hfits v hv with hlow | ⟨hge, -⟩
      · exact hlow
      · omega
    obtain ⟨hdvd', hend, hapart⟩ := findFreeRange_spec h hfits hlen (Nat.le_refl _) (by decide)
      (by decide) hbelow hbase hne
    exact ⟨hdvd', Nat.le_trans hend (by decide), hapart⟩
  · rw [if_neg haddr] at hfits
    rw [if_pos haddr] at hbase
    cases hbase
    exact ⟨hdvd, hfits⟩

/-! ## The kernel half -/

/-- The first page of the kernel half. -/
def kernelPage : Nat := userEnd / pageSize

/-- No page of the kernel half has an entry. -/
def UserLeaves (st : VmSt) : Prop := ∀ r p e, st.leafAt r p = some e → p < kernelPage

theorem pageOf_lt {va : Nat} (h : va < userEnd) : pageOf va < kernelPage := by
  refine Nat.lt_of_le_of_lt (Nat.mod_le _ _) ?_
  rw [kernelPage, Nat.div_lt_iff_lt_mul (by decide)]
  exact Nat.lt_of_lt_of_le h (by decide)

section

variable (h : st.UserLeaves)

include h

theorem UserLeaves.congr (hspace : st'.space = st.space) : st'.UserLeaves := by
  intro r p e he
  refine h r p e ?_
  rwa [leafAt, hspace] at he

theorem UserLeaves.mapPage (r : Nat) {va : Nat} (hva : va < userEnd) (pa : Nat)
    (writable present : Bool) (origin : Origin) :
    (st.mapPage r va pa writable present origin).UserLeaves := by
  intro r' p e he
  rcases leafAt_mapPage he with hold | ⟨-, rfl, -⟩
  · exact h r' p e hold
  · exact pageOf_lt hva

theorem UserLeaves.unmapPage (r va : Nat) : (st.unmapPage r va).UserLeaves :=
  fun r' p e he => h r' p e (leafAt_unmapPage he)

omit h in
theorem allows_leaves : Allows fun st st' => st.UserLeaves → st'.UserLeaves :=
  ⟨id, fun h h' => h' ∘ h, id, fun _ _ => id, id⟩

omit h in
/-- A page before the end of a range in the user half. -/
theorem page_lt {n j : Nat} (hbound : base + n * pageSize ≤ userEnd) (hj : j < n) :
    base + j * pageSize < userEnd := by
  have hmul := Nat.mul_lt_mul_of_pos_right hj (show 0 < pageSize by decide)
  omega

theorem mmapLoop_leaves (r : Nat) {n i : Nat}
    (hbound : base + (i + n) * pageSize ≤ userEnd) (writable shared : Bool) (src : Source) :
    (mmapLoop r base writable shared src n i st).1.UserLeaves :=
  allows_leaves.mmapLoop id (fun h => h.unmapPage _ _)
    (fun hj h => h.mapPage r (page_lt hbound hj) _ _ _ _) h

theorem growLoop_leaves (r : Nat) {n a : Nat}
    (hbound : a + n * pageSize ≤ userEnd) : (growLoop r n a st).1.UserLeaves :=
  allows_leaves.growLoop id (fun _ hb h => h.mapPage r (by omega) _ _ _ _) h

/-- `mprotect` changes entries that are there. -/
theorem UserLeaves.remapPage {r a pa : Nat} {writable present : Bool}
    {origin : Origin} (hnull : st.physicalAddressIgnorePresent r a ≠ 0) :
    (st.mapPage r a pa writable present origin).UserLeaves := by
  intro r' p e' he'
  rcases leafAt_mapPage he' with hold | ⟨-, rfl, -⟩
  · exact h r' p e' hold
  · obtain ⟨pt, e, t, hpt, hentry, -⟩ := mapPage_of_entry hnull pa writable present origin
    exact h r (pageOf a) e (by rw [leafAt, hpt]; exact PageTable.leaf_of_entry hentry)

end

/-! ## The calls -/

/-- The areas of the units are in order, and the kernel half has no entries. -/
structure Tidy (st : VmSt) : Prop where
  units : st.UnitsOk
  leaves : st.UserLeaves

theorem Tidy.congr (h : st.Tidy) (hunit : st'.unit = st.unit) (hspace : st'.space = st.space) :
    st'.Tidy :=
  ⟨h.units.congr hunit, h.leaves.congr hspace⟩

theorem Tidy.same (h : st.Tidy) (hsame : SameTables st st') : st'.Tidy :=
  h.congr hsame.unit hsame.space

theorem Tidy.mapPage (h : st.Tidy) (r : Nat) {va : Nat} (hva : va < userEnd) (pa : Nat)
    (writable present : Bool) (origin : Origin) :
    (st.mapPage r va pa writable present origin).Tidy :=
  ⟨h.units.congr (mapPage_unit _), h.leaves.mapPage r hva _ _ _ _⟩

theorem allows_tidy : AllowsCalls fun st st' => st.Tidy → st'.Tidy where
  refl := id
  trans h h' := h' ∘ h
  free h := h.congr rfl rfl
  setObj _ _ h := h.congr rfl rfl
  removeObj h := h.congr rfl rfl
  phys h := h.congr rfl rfl
  setHandles h := h.congr rfl rfl
  newShm h := h.congr rfl rfl

theorem grow_bound {heapEnd : Nat} (hgrow : heapEnd < addr) (haddr : addr ≤ userHeapMax) :
    alignUp heapEnd + (alignUp addr - alignUp heapEnd) / pageSize * pageSize ≤ userEnd := by
  have hmax : userHeapMax ≤ userEnd := by decide
  have hup : alignUp addr ≤ userHeapMax := alignUp_le_of_dvd haddr (by decide) hmax
  have hlow : alignUp heapEnd ≤ userHeapMax := alignUp_le_of_dvd (by omega) (by decide) hmax
  have := Nat.div_mul_le_self (alignUp addr - alignUp heapEnd) pageSize
  omega

section TidyCalls

variable (h : st.Tidy)

include h

theorem mmapAt_tidy {u : Nat} {x : VmUnit} (hx : AreasOk x.vmas)
    (hlen : 0 < length) (hbound : base + length ≤ userEnd)
    (hapart : ∀ v ∈ x.vmas, v.top ≤ base ∨ base + length ≤ v.start) (prot flags : Nat)
    (handle : UInt64) (offset : Nat) (src : Source) (vmaOk : Bool) :
    (st.mmapAt u x base length prot flags handle offset src vmaOk).1.Tidy := by
  have hnew : AreasOk (⟨base, length, prot, flags, offset, handle, src.backing⟩ :: x.vmas) := by
    refine Span.ok_cons.mpr ⟨⟨?_, hbound⟩, hx, fun v hv => (hapart v hv).symm⟩
    show base < base + length
    omega
  have hloop : (mmapLoop x.realm base (protWrite prot) (mapShared flags) src (length / pageSize) 0
      st).1.Tidy := by
    refine ⟨h.units.congr (by simp), mmapLoop_leaves h.leaves _ ?_ _ _ _⟩
    rw [Nat.zero_add]
    have := Nat.div_mul_le_self length pageSize
    omega
  unfold VmSt.mmapAt
  dsimp only
  split_ifs
  · have hset : (VmSt.setUnit _ u { x with vmas := _ :: x.vmas }).UnitsOk := hloop.units.setUnit hnew
    exact ⟨hset.congr rfl, hloop.leaves.congr rfl⟩
  · have hunmapped : ((mmapLoop x.realm base (protWrite prot) (mapShared flags) src
        (length / pageSize) 0 st).1.unmapPages x.realm base (length / pageSize)).Tidy :=
      ⟨hloop.units.congr (by simp), allows_leaves.unmapPages (fun h => h.unmapPage _ _) hloop.leaves⟩
    exact hunmapped.same SameTables.allows.dropBacking
  · exact hloop.same SameTables.allows.dropBacking

theorem mmap_tidy {u : Nat} (hfits : length = 0 ∨
    ∀ x ∈ st.unit u, MmapFits x.vmas (alignDown addr) (alignUp length)) (prot flags : Nat)
    (handle : UInt64) (offset : Nat) (vmaOk : Bool) :
    (st.mmap u addr length prot flags handle offset vmaOk).1.Tidy := by
  unfold VmSt.mmap
  split
  · exact h
  rename_i hlength
  split
  · exact h
  rename_i x hx
  have hareas := h.units u x hx
  have hfits := hfits.resolve_left hlength x hx
  split
  · exact h
  dsimp only
  split
  · exact h
  rename_i base hbase
  split
  · exact h
  rename_i hne
  obtain ⟨-, hbound, hapart⟩ := mmap_base hareas alignDown_dvd hfits hbase hne
  split
  · exact mmapAt_tidy h hareas hfits.1 hbound hapart _ _ _ _ _ _
  have hres := h.same (sameTables_resolveBacking st x.realm handle (alignUp length) offset)
  split
  · exact hres
  · exact mmapAt_tidy hres hareas hfits.1 hbound hapart _ _ _ _ _ _

theorem brk_tidy {u : Nat}
    (hfits : ∀ x ∈ st.unit u, x.heapEnd < addr → ∀ v ∈ x.vmas, v.start < addr → v.top ≤ x.heapEnd) :
    (st.brk u addr).1.Tidy := by
  unfold VmSt.brk
  split
  · exact h
  rename_i x hx
  have hareas := h.units u x hx
  dsimp only
  split_ifs with huser hheap hzero hlow hhigh hgrow hok
  all_goals first | exact h | skip
  · exact ⟨(h.units.congr (by simp)).setUnit
      (growAreas_ok hareas hgrow (by omega) (hfits x hx hgrow)),
      (growLoop_leaves h.leaves _ (grow_bound hgrow (by omega))).congr rfl⟩
  · exact ⟨h.units.congr (by simp), growLoop_leaves h.leaves _ (grow_bound hgrow (by omega))⟩
  · exact ⟨(h.units.congr (by simp)).setUnit (shrinkAreas_ok hareas),
      (allows_leaves.unmapRange (fun h => h.unmapPage _ _) h.leaves).congr rfl⟩

theorem munmap_tidy {u : Nat} (hfits : alignDown addr + alignUp length < 2 ^ 64) (vmaOk : Bool) :
    (st.munmap u addr length vmaOk).1.Tidy := by
  unfold VmSt.munmap
  split
  · exact h
  rename_i x hx
  have hle : alignDown addr ≤ (alignDown addr + alignUp length) % 2 ^ 64 := by
    rw [Nat.mod_eq_of_lt hfits]
    exact Nat.le_add_right _ _
  dsimp only
  split_ifs
  all_goals first | exact h | skip
  obtain ⟨hmap, hsplit⟩ := markSplit_spec (h.units u x hx) (by decide) hle
  refine ⟨(h.units.congr (by simp)).setUnit
    (munmapLoop_cuts st hle x.realm ?_ (by decide) hsplit).ok,
    (allows_leaves.munmapLoop (fun h => h.unmapPage _ _) h.leaves).congr rfl⟩
  rw [hmap]
  exact h.units u x hx

theorem mprotect_tidy {u room : Nat}
    (hfits : length = 0 ∨ 0 < alignUp length ∧ alignDown addr + alignUp length < 2 ^ 64 ∧
      ∀ x ∈ st.unit u, 2 * x.vmas.length ≤ room) (prot : Nat) :
    (st.mprotect u addr length prot room).1.Tidy := by
  unfold VmSt.mprotect
  split
  · exact h
  rename_i x hx
  by_cases hlength : length = 0
  · simp only [hlength, if_true]
    split_ifs <;> exact h
  obtain ⟨hlen, hfits, hroom⟩ := hfits.resolve_left hlength
  have hlt : alignDown addr < (alignDown addr + alignUp length) % 2 ^ 64 := by
    rw [Nat.mod_eq_of_lt hfits]
    omega
  have hparts := (protectLoop_cuts st hlt x.realm prot (h.units u x hx) (by decide) (hroom x hx)).1
  dsimp only
  split_ifs
  all_goals first | exact h | skip
  all_goals
    exact ⟨(h.units.congr (by simp)).setUnit hparts.ok,
      (allows_leaves.protectLoop (fun hnull h => h.remapPage hnull) h.leaves).congr rfl⟩

/-! ## Realms, units and handles -/

theorem createRealm_tidy (r : Nat) : (st.createRealm r).1.Tidy := by
  unfold VmSt.createRealm
  dsimp only
  split_ifs
  · exact h
  · exact ⟨h.units.congr rfl, h.leaves.congr rfl⟩
  refine ⟨h.units.congr (mapPage_unit _), UserLeaves.mapPage ?_ r (by decide) _ _ _ _⟩
  intro r' p e he
  have he := leafAt_setTable.symm.trans he
  split_ifs at he
  · cases he
  · exact h.leaves r' p e he

theorem createUnit_tidy (u r : Nat) {cfg : UnitSetup}
    (hstack : cfg.stackBase + cfg.stackPages * pageSize ≤ userEnd)
    (htls : cfg.tlsBase + cfg.tlsPages * pageSize ≤ userEnd) : (st.createUnit u r cfg).1.Tidy := by
  refine allows_tidy.createUnit (fun hj h => h.mapPage r (page_lt hstack hj) _ _ _ _)
    (fun hj h => h.mapPage r (page_lt htls hj) _ _ _ _) (fun hx h => ⟨h.units.setUnit ?_, ?_⟩) h
  · rw [hx]
    exact Span.ok_nil
  · exact h.leaves.congr rfl

/-- Units and address spaces that go away do no harm. -/
theorem Tidy.shrink (hunit : ∀ u x, st'.unit u = some x → st.unit u = some x)
    (hspace : ∀ r pt, st'.space r = some pt → st.space r = some pt) : st'.Tidy := by
  refine ⟨fun u x hx => h.units u x (hunit u x hx), fun r p e he => ?_⟩
  obtain ⟨pt, hpt, hleaf⟩ := Option.bind_eq_some_iff.mp he
  exact h.leaves r p e (by rw [leafAt, hspace r pt hpt]; exact hleaf)

theorem releaseResources_tidy (u : Nat) : (st.releaseResources u).Tidy := by
  unfold VmSt.releaseResources
  split
  · exact h
  rename_i x hx
  have hfreed := ((h.same (sameTables_freeRun st (some x.stack))).same
    (sameTables_freeRun _ x.tls)).same (sameTables_freeRun _ x.userStack)
  refine hfreed.shrink (fun u' x' hx' => ?_) fun r pt hpt => hpt
  by_cases hu : u' = u
  · subst hu
    simp at hx'
  · simpa [hu] using hx'

theorem destroyUnits_tidy (r : Nat) (us : List Nat) : (st.destroyUnits r us).Tidy := by
  unfold VmSt.destroyUnits
  induction us generalizing st with
  | nil => exact h
  | cons u us ih =>
    rw [foldl_cons]
    refine ih ?_
    split_ifs
    · exact releaseResources_tidy h u
    · exact h

theorem destroySpace_tidy (r : Nat) : (st.destroySpace r).Tidy := by
  unfold VmSt.destroySpace
  split
  · exact h
  refine h.shrink (fun u x hx => hx) fun r' pt hpt => ?_
  by_cases hr : r' = r
  · subst hr
    simp at hpt
  · simpa [hr] using hpt

theorem destroyRealm_tidy (r : Nat) : (st.destroyRealm r).Tidy := by
  have hspace := destroySpace_tidy (destroyUnits_tidy h r (List.range maxUnits)) r
  exact allows_tidy.clearHandles hspace

theorem store_tidy (r va : Nat) (b : UInt8) : (st.store r va b).Tidy := by
  obtain ⟨ph, sp, heq⟩ := store_eq st r va b
  refine ⟨h.units.congr (by rw [heq]), fun r' p e' he' => ?_⟩
  obtain ⟨e, he, -⟩ := leafAt_store he'
  exact h.leaves r' p e he

end TidyCalls

/-! ## Runs -/

/-- Arguments that fit: ranges that do not wrap and are not empty, hints that name free addresses
of the user half, a heap that grows over free addresses, and room for the areas of `mprotect`. -/
def Fits (st : VmSt) : VmAction → Prop
  | .createUnit _ _ cfg => cfg.stackBase + cfg.stackPages * pageSize ≤ userEnd ∧
      cfg.tlsBase + cfg.tlsPages * pageSize ≤ userEnd
  | .mmap u addr length _ _ _ _ _ =>
    length = 0 ∨ ∀ x ∈ st.unit u, MmapFits x.vmas (alignDown addr) (alignUp length)
  | .brk u addr =>
    ∀ x ∈ st.unit u, x.heapEnd < addr → ∀ v ∈ x.vmas, v.start < addr → v.top ≤ x.heapEnd
  | .munmap _ addr length _ => alignDown addr + alignUp length < 2 ^ 64
  | .mprotect u addr length _ room => length = 0 ∨ 0 < alignUp length ∧
      alignDown addr + alignUp length < 2 ^ 64 ∧ ∀ x ∈ st.unit u, 2 * x.vmas.length ≤ room
  | _ => True

instance (st : VmSt) (a : VmAction) : Decidable (st.Fits a) := by
  cases a <;> unfold Fits <;> infer_instance

theorem step_tidy (h : st.Tidy) {a : VmAction} (ha : st.Fits a) : (vmStep st a).1.Tidy := by
  cases a with
  | createRealm r => exact createRealm_tidy h r
  | createUnit u r cfg => exact createUnit_tidy h u r ha.1 ha.2
  | addHandle r hid type resource => exact allows_tidy.addHandle h
  | closeHandle r hid => exact allows_tidy.closeHandle h
  | shmCreate r hid => exact allows_tidy.shmCreate h
  | shmUnlink o => exact allows_tidy.markUnlinked h
  | shmTruncate r hid length ok => exact allows_tidy.shmTruncate h
  | mmap u addr length prot flags handle offset vmaOk =>
    exact mmap_tidy h ha prot flags handle offset vmaOk
  | brk u addr => exact brk_tidy h ha
  | munmap u addr length vmaOk => exact munmap_tidy h ha vmaOk
  | mprotect u addr length prot room => exact mprotect_tidy h ha prot
  | store u va b =>
    simp only [vmStep]
    cases st.unit u with
    | none => exact h
    | some x => exact store_tidy h x.realm va b
  | writeNode node offset data size => exact h.congr rfl rfl
  | exitUnit u => exact releaseResources_tidy h u
  | exitRealm r => exact destroyRealm_tidy h r
  | kernelTake n => exact allows_tidy.kernelTake h
  | kernelGive f => exact allows_tidy.kernelGive h
  | kernelStore f off b => exact allows_tidy.kernelStore h

theorem Booted.tidy (h : st.Booted) : st.Tidy := by
  refine ⟨fun u x hx => ?_, fun r p e he => ?_⟩
  · rw [h.unit] at hx
    cases hx
  · rw [leafAt, h.space] at he
    cases he

/-- In every run whose arguments fit, the areas of every unit are not empty, do not overlap and lie
in the user half, and no page of the kernel half has an entry. -/
theorem areas_well_formed (hst : st.Booted) {as : List VmAction} (has : Along vmStep Fits st as) :
    (∀ u x, (final vmStep st as).unit u = some x →
      (∀ v ∈ x.vmas, 0 < v.length ∧ v.start + v.length ≤ userEnd) ∧
        x.vmas.Pairwise fun v w => v.start + v.length ≤ w.start ∨ w.start + w.length ≤ v.start) ∧
      ∀ r p, kernelPage ≤ p → (final vmStep st as).leafAt r p = none := by
  have hstep : ∀ s a, Tidy s → Fits s a → (vmStep s a).1.Tidy := fun s a hs ha => step_tidy hs ha
  have htidy : (final vmStep st as).Tidy := final_invariant_along hstep hst.tidy has
  refine ⟨fun u x hx => ⟨fun v hv => ?_, (htidy.units u x hx).apart⟩, fun r p hp => ?_⟩
  · obtain ⟨hproper, hbound⟩ := (htidy.units u x hx).proper v hv
    have htop : v.top = v.start + v.length := rfl
    exact ⟨by omega, hbound⟩
  cases hleaf : (final vmStep st as).leafAt r p with
  | none => rfl
  | some e =>
    have := htidy.leaves r p e hleaf
    omega

/-- A unit maps, reprotects and unmaps memory, and has three areas in the end. -/
theorem areas_well_formed_calls :
    let st := final vmStep smallMachine [.createRealm 1, .createUnit 0 1 smallUnit,
      .mmap 0 0 8192 3 0x22 0 0 true, .brk 0 0x401800, .mprotect 0 0x600000001000 4096 1 8,
      .munmap 0 0x600000000000 4096 true, .mmap 0 0x500000 4096 3 0x22 0 0 true]
    (st.unit 0).any (fun x => decide (x.vmas.length = 3)) ∧
      (∀ x, st.unit 0 = some x → (∀ v ∈ x.vmas, 0 < v.length ∧ v.start + v.length ≤ userEnd) ∧
        x.vmas.Pairwise fun v w => v.start + v.length ≤ w.start ∨ w.start + w.length ≤ v.start) ∧
      ∀ r p, kernelPage ≤ p → st.leafAt r p = none :=
  have h := areas_well_formed smallMachine_booted (by decide +kernel)
  ⟨by decide +kernel, fun x => h.1 0 x, h.2⟩

/-- A hint in the kernel half is taken: the area and the entry are there. -/
theorem mmap_maps_kernel_half :
    let st := final vmStep smallMachine [.createRealm 1, .createUnit 0 1 smallUnit,
      .mmap 0 0xFFFF800000000000 4096 3 0x22 0 0 true]
    ((st.unit 0).map fun x => x.vmas.map fun v => (v.start, v.length)) =
        some [(0xFFFF800000000000, 4096)] ∧
      kernelPage ≤ pageOf 0xFFFF800000000000 ∧
      (st.leafAt 1 (pageOf 0xFFFF800000000000)).any Pte.present = true := by
  decide +kernel

end VmSt

end Vespera.Memory
