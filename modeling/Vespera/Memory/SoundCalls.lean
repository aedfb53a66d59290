import Vespera.Memory.Mappings

/-! # The memory calls and the owners of frames

`mmap`, `brk`, `munmap` and `mprotect` keep the frames with their owners and the areas true to what
is mapped, for arguments that the code does not check itself: ranges in the user half with nothing
in them, where something is to be mapped, and pages that are present, where something is to be
unmapped.

* `mmap_sound`, `brk_sound`, `munmap_sound`, `mprotect_sound`.
-/

namespace Vespera.Memory

open Function List

namespace VmSt

variable {st st' : VmSt} {unit : Nat → Option VmUnit} {u r n base addr : Nat} {x x' : VmUnit}
  {src : Source}

/-! ## Ranges -/

/-- In the user half the page number is the quotient. -/
theorem pageOf_eq {va : Nat} (h : va < userEnd) : pageOf va = va / pageSize := by
  refine Nat.mod_eq_of_lt ?_
  have hend : userEnd = 0x800000000000 := rfl
  show va / 4096 < 2 ^ 36
  omega

/-- The page of an address that is a multiple of the page size, and the ones behind it. -/
theorem pageOf_add_mul {i : Nat} (hbase : pageSize ∣ base)
    (hbound : base + i * pageSize < userEnd) :
    pageOf (base + i * pageSize) * pageSize = base + i * pageSize := by
  rw [pageOf_eq hbound]
  exact Nat.div_mul_cancel (Nat.dvd_add hbase (Nat.dvd_mul_left _ _))

/-- A page that an aligned range touches is one of its pages. -/
theorem exists_page {p : Nat} (hbase : pageSize ∣ base) (hbound : base + n * pageSize ≤ userEnd)
    (hlow : base < (p + 1) * pageSize) (hhigh : p * pageSize < base + n * pageSize) :
    ∃ i, i < n ∧ p = pageOf (base + i * pageSize) := by
  obtain ⟨k, rfl⟩ := hbase
  have hpos : 0 < pageSize := by decide
  rw [Nat.mul_comm pageSize k] at *
  have hkp : k ≤ p := Nat.lt_succ_iff.mp (Nat.lt_of_mul_lt_mul_right hlow)
  rw [← Nat.add_mul] at hhigh
  have hpn : p < k + n := Nat.lt_of_mul_lt_mul_right hhigh
  refine ⟨p - k, by omega, ?_⟩
  rw [← Nat.add_mul, show k + (p - k) = p by omega, pageOf_eq, Nat.mul_div_cancel _ hpos]
  rw [← Nat.add_mul] at hbound
  exact Nat.lt_of_lt_of_le hhigh hbound

/-- No unit of the realm has an area or heap in the range. -/
def Unclaimed (st : VmSt) (r base n : Nat) : Prop :=
  ∀ w, w < maxUnits → ∀ y ∈ st.unit w, y.realm = r →
    (∀ v ∈ y.vmas, v.top ≤ base ∨ base + n * pageSize ≤ v.start) ∧
      (alignUp y.heapEnd ≤ base ∨ base + n * pageSize ≤ alignUp y.heapStart)

instance (st : VmSt) (r base n : Nat) : Decidable (st.Unclaimed r base n) := by
  unfold Unclaimed
  infer_instance

/-- Nothing is mapped in the range either. -/
def RangeFree (st : VmSt) (r base n : Nat) : Prop :=
  (∀ i, i < n → st.leafAt r (pageOf (base + i * pageSize)) = none) ∧ st.Unclaimed r base n

instance (st : VmSt) (r base n : Nat) : Decidable (st.RangeFree r base n) := by
  unfold RangeFree
  infer_instance

/-- The pages of such a range belong to no unit's memory. -/
theorem Unclaimed.not_ownMemory (h : st.Unclaimed x.realm base n) (hlive : u < maxUnits)
    (hx : st.unit u = some x) {p : Nat} (hlow : base ≤ p * pageSize)
    (hhigh : (p + 1) * pageSize ≤ base + n * pageSize) : ¬ x.OwnMemory p := by
  obtain ⟨hareas, hheap⟩ := h u hlive x hx rfl
  rw [Nat.succ_mul] at hhigh
  have hpos : 0 < pageSize := by decide
  rintro (⟨v, hv, -, htouch⟩ | hpage)
  · obtain ⟨hstart, htop⟩ := htouch
    rw [Nat.succ_mul] at hstart
    rcases hareas v hv with hv | hv <;> omega
  · obtain ⟨hstart, htop⟩ := hpage
    rcases hheap with hy | hy <;> omega

/-! ## mmap -/

/-- A page of the loop of `mmap`. -/
theorem mapSourcePage_sound (h : st.Sound unit) {va i : Nat}
    (hmap : MayMap unit r (pageOf va) (src.lender i)) (hne : (st.sourcePage i src).2 ≠ 0)
    (writable shared : Bool) :
    ((st.sourcePage i src).1.mapPage r va (st.sourcePage i src).2 writable true
      ((st.sourcePage i src).1.sourceOrigin shared i src)).Sound unit := by
  have hsource := sourcePage_sound h i src
  have hshow := (sourcePage_frames h.frames i src shared).2
  rw [← lender_sourceOrigin] at hmap
  exact ⟨hsource.frames.mapPage r _ (hshow hne) writable true,
    hsource.mapped.mapPage _ writable true hmap⟩

/-- The loop of `mmap` keeps the invariants, where its pages may be mapped. -/
theorem mmapLoop_sound (h : st.Sound unit) {i : Nat}
    (hmap : ∀ j, i ≤ j → j < i + n → MayMap unit r (pageOf (base + j * pageSize)) (src.lender j))
    (writable shared : Bool) : (mmapLoop r base writable shared src n i st).1.Sound unit ∧
      SameCounts st (mmapLoop r base writable shared src n i st).1 := by
  induction n generalizing st i with
  | zero => exact ⟨h, .refl st⟩
  | succ n ih =>
    have hsource := sourcePage_sound h i src
    have hcounts := sourcePage_counts st i src
    rw [mmapLoop]
    split
    · exact ⟨unmapPages_sound hsource r base i, hcounts.trans (.of_obj unmapPages_obj)⟩
    rename_i hne
    have hstep := mapSourcePage_sound h (hmap i (Nat.le_refl i) (by omega)) hne writable shared
    obtain ⟨hrest, hcounts'⟩ := ih (i := i + 1) hstep fun j hj hj' => hmap j (by omega) (by omega)
    exact ⟨hrest, (hcounts.trans (.of_obj (mapPage_obj _))).trans hcounts'⟩

theorem leafAt_sourcePage {i : Nat} {p : Nat} :
    (st.sourcePage i src).1.leafAt r p = st.leafAt r p := by
  rw [leafAt, leafAt, (sameTables_sourcePage st i src).space]

/-- When the loop of `mmap` fails, or is undone, the range has no entries. -/
theorem mmapLoop_leaves_present (h : st.Sound unit) {i : Nat}
    (hbase : pageSize ∣ base) (hbound : base + (i + n) * pageSize ≤ userEnd)
    (hmap : ∀ j, i ≤ j → j < i + n → MayMap unit r (pageOf (base + j * pageSize)) (src.lender j))
    (hbelow : ∀ j, j < i → ∀ e, st.leafAt r (pageOf (base + j * pageSize)) = some e → e.present)
    (habove : ∀ j, i ≤ j → j < i + n → st.leafAt r (pageOf (base + j * pageSize)) = none)
    (writable shared : Bool) :
    (∀ j, j < i + n → ∀ e, (mmapLoop r base writable shared src n i st).1.leafAt r
        (pageOf (base + j * pageSize)) = some e → e.present) ∧
      ((mmapLoop r base writable shared src n i st).2 = false → ∀ j, j < i + n →
        (mmapLoop r base writable shared src n i st).1.leafAt r (pageOf (base + j * pageSize)) =
          none) := by
  induction n generalizing st i with
  | zero => exact ⟨fun j hj => hbelow j hj, fun hfalse => by cases hfalse⟩
  | succ n ih =>
    have hsource := sourcePage_sound h i src
    rw [mmapLoop]
    split
    · -- no frame: what was mapped is unmapped, and the rest was never mapped
      have hnone : ∀ j, j < i + (n + 1) → ((st.sourcePage i src).1.unmapPages r base i).leafAt r
          (pageOf (base + j * pageSize)) = none := by
        intro j hj
        rcases Nat.lt_or_ge j i with hlt | hge
        · refine unmapPages_none hsource.frames (fun j hj e he => ?_) hlt
          rw [leafAt_sourcePage] at he
          exact hbelow j hj e he
        refine Option.eq_none_iff_forall_ne_some.mpr fun e he => ?_
        have hold := leafAt_unmapPages he
        rw [leafAt_sourcePage, habove j hge hj] at hold
        cases hold
      refine ⟨fun j hj e he => ?_, fun _ => hnone⟩
      rw [hnone j hj] at he
      cases he
    rename_i hne
    have hstep := mapSourcePage_sound h (hmap i (Nat.le_refl i) (by omega)) hne writable shared
    generalize hst1 : VmSt.mapPage _ _ _ _ _ _ _ = st1 at hstep ⊢
    have hleaf : ∀ j e, st1.leafAt r (pageOf (base + j * pageSize)) = some e →
        st.leafAt r (pageOf (base + j * pageSize)) = some e ∨
          (pageOf (base + j * pageSize) = pageOf (base + i * pageSize) ∧ e.present) := by
      intro j e he
      rw [← hst1] at he
      rcases leafAt_mapPage he with hold | ⟨-, hpage, rfl⟩
      · exact .inl (by rw [leafAt_sourcePage] at hold; exact hold)
      · exact .inr ⟨hpage, rfl⟩
    have hsum : i + 1 + n = i + (n + 1) := by omega
    have hpages : ∀ j, j < i + (n + 1) → base + j * pageSize < userEnd := by
      intro j hj
      have : j * pageSize < (i + (n + 1)) * pageSize := Nat.mul_lt_mul_of_pos_right hj (by decide)
      omega
    have hbelow' : ∀ j, j < i + 1 → ∀ e,
        st1.leafAt r (pageOf (base + j * pageSize)) = some e → e.present := by
      intro j hj e he
      rcases hleaf j e he with hold | ⟨-, hp⟩
      · rcases Nat.lt_or_ge j i with hlt | hge
        · exact hbelow j hlt e hold
        · rw [habove j hge (by omega)] at hold
          cases hold
      · exact hp
    have habove' : ∀ j, i + 1 ≤ j → j < i + 1 + n →
        st1.leafAt r (pageOf (base + j * pageSize)) = none := by
      intro j hj hj'
      refine Option.eq_none_iff_forall_ne_some.mpr fun e he => ?_
      rcases hleaf j e he with hold | ⟨hp, -⟩
      · rw [habove j (by omega) (by omega)] at hold
        cases hold
      -- different pages of the range have different numbers
      have hi := pageOf_add_mul hbase (hpages i (by omega))
      have hj := pageOf_add_mul hbase (hpages j (by omega))
      rw [hp, hi] at hj
      have hpage : pageSize = 4096 := rfl
      rw [hpage] at hj
      omega
    have hrest := ih hstep (by rw [hsum]; exact hbound)
      (fun j hj hj' => hmap j (by omega) (by omega)) hbelow' habove'
    rw [hsum] at hrest
    exact hrest

/-- What is stored at the end of a call: the unit has other areas, and the same runs. -/
theorem Sound.store (h : st.Sound (update st.unit u (some x')))
    (hruns : ∀ kind i, runAt (some x') kind i = runAt (st.unit u) kind i) :
    (st.setUnit u x').Sound (st.setUnit u x').unit :=
  ⟨(Keeping.setUnit h.frames hruns).1, h.mapped.same rfl rfl rfl⟩

theorem Sound.setMappings (h : st.Sound unit) : ({ st with mappings := n } : VmSt).Sound unit :=
  h.same rfl rfl (fun _ => rfl) rfl rfl

theorem runAt_setAreas (vmas : List VmArea) (heapEnd : Nat) (kind : RunKind) (i : Nat) :
    runAt (some { x with vmas := vmas, heapEnd := heapEnd }) kind i = runAt (some x) kind i := by
  cases kind <;> rfl

/-- Areas of a unit that are next to each other in its list are replaced by others. -/
theorem replaceAreas_mapped (h : st.Mapped unit) (hx : unit u = some x)
    (pre post vs ps : List VmArea)
    (hlist : x.vmas = pre ++ (vs ++ post)) {heapEnd : Nat}
    (hmem : ∀ w ∈ ps, mapAnonymous w.flags → ∀ p l, w.Touches p →
      st.lenderAt x.realm p = some l → l = none)
    (hheap : ∀ p l, ({ x with heapEnd := heapEnd } : VmUnit).HeapPage p →
      st.lenderAt x.realm p = some l → l = none)
    (hcov : ∀ v ∈ vs, ∀ o p i, v.backing = some o → v.Touches p →
      st.lenderAt x.realm p = some (some (.object o i)) → ∃ w ∈ ps, w.backing = some o ∧ w.Touches p)
    (hcount : ∀ o b, st.obj o = some b →
      areasOf unit o + countBacking o ps ≤ b.mappingCount + countBacking o vs)
    (harea : ∀ w ∈ ps, AreaOk st.nextObj w)
    (hbounded : ({ x with heapEnd := heapEnd } : VmUnit).HeapBounded) :
    st.Mapped (update unit u
      (some { x with vmas := pre ++ (ps ++ post), heapEnd := heapEnd })) := by
  -- an area afterwards is one of the new ones or was there before
  have hcases : ∀ w ∈ pre ++ (ps ++ post), w ∈ ps ∨ w ∈ x.vmas := by
    intro w hw
    rw [hlist]
    simp only [mem_append] at hw ⊢
    rcases hw with hw | hw | hw
    · exact .inr (.inl hw)
    · exact .inl hw
    · exact .inr (.inr (.inr hw))
  refine h.setUnit hx rfl (fun p l hp hl => ?_) (fun p o i hc hl => ?_) (fun o b hb => ?_)
    (fun w hw => ?_) hbounded
  · rcases hp with ⟨w, hw, hanon, htouch⟩ | hpage
    · rcases hcases w hw with hw | hw
      · exact hmem w hw hanon p l htouch hl
      · exact h.memory u x hx p l (.inl ⟨w, hw, hanon, htouch⟩) hl
    · exact hheap p l hpage hl
  · obtain ⟨w, hw, hback, htouch⟩ := hc
    rw [hlist] at hw
    rcases mem_append.mp hw with hw | hw
    · exact ⟨w, mem_append_left _ hw, hback, htouch⟩
    rcases mem_append.mp hw with hw | hw
    · obtain ⟨w', hw', hback', htouch'⟩ := hcov w hw o p i hback htouch hl
      exact ⟨w', mem_append_right _ (mem_append_left _ hw'), hback', htouch'⟩
    · exact ⟨w, mem_append_right _ (mem_append_right _ hw), hback, htouch⟩
  · have hle := hcount o b hb
    rw [hlist]
    simp only [countBacking, countP_append] at hle ⊢
    omega
  · rcases hcases w hw with hw | hw
    · exact harea w hw
    · exact h.area u x hx w hw

section

variable {area : VmArea} (hbase : pageSize ∣ area.start)
  (htop : area.top = area.start + n * pageSize) (hbound : area.top ≤ userEnd)

include hbase htop hbound

/-- Nothing is mapped at a page that an area without entries touches. -/
theorem not_lent_of_leaves_none
    (hnone : ∀ i, i < n → st.leafAt r (pageOf (area.start + i * pageSize)) = none) {p : Nat}
    {l : Option Site} (htouch : area.Touches p) : st.lenderAt r p ≠ some l := by
  intro hl
  obtain ⟨hlow, hhigh⟩ := htouch
  rw [htop] at hhigh hbound
  obtain ⟨i, hi, rfl⟩ := exists_page hbase hbound hlow hhigh
  obtain ⟨e, he, -⟩ := lenderAt_eq_some.mp hl
  rw [hnone i hi] at he
  cases he

/-- A new area for a range that is free. -/
theorem addArea_mapped (h : st.Mapped st.unit) (hx : st.unit u = some x)
    (hfree : st.RangeFree x.realm area.start n)
    (harea : AreaOk st.nextObj area) (hslack : ∀ o ∈ area.backing, st.Slack st.unit o 1) :
    st.Mapped (update st.unit u (some { x with vmas := area :: x.vmas })) := by
  refine replaceAreas_mapped h hx [] x.vmas [] [area] rfl ?_
    (fun p l hp hl => h.memory u x hx p l (.inr hp) hl) (fun v hv => nomatch hv) ?_ ?_ (h.heap u x hx)
  · intro w hw _ p l htouch hl
    rw [mem_singleton.mp hw] at htouch
    exact absurd hl (not_lent_of_leaves_none hbase htop hbound hfree.1 htouch)
  · intro o b hb
    have hle := (h.counted o b hb).1
    by_cases hback : area.backing = some o
    · have hroom := hslack o hback b hb
      have hone : countBacking o [area] ≤ 1 := countP_le_length
      omega
    · have hnone : countBacking o [area] = 0 := by simp [countBacking, hback]
      omega
  · intro w hw
    rw [mem_singleton.mp hw]
    exact harea

/-- The area of a range in which nothing is mapped may go away again. -/
theorem dropArea_mapped (h : st.Mapped (update unit u (some { x with vmas := area :: x.vmas })))
    (hx : unit u = some x)
    (hnone : ∀ i, i < n → st.leafAt x.realm (pageOf (area.start + i * pageSize)) = none) :
    st.Mapped unit := by
  have hx' : update unit u (some { x with vmas := area :: x.vmas }) u =
      some { x with vmas := area :: x.vmas } := by simp
  have hback : update (update unit u (some { x with vmas := area :: x.vmas })) u
      (some x) = unit := by rw [update_idem, ← hx, update_eq_self]
  rw [← hback]
  refine replaceAreas_mapped h hx' [] x.vmas [area] [] rfl (fun w hw => nomatch hw)
    (fun p l hp hl => h.memory u _ hx' p l (.inr hp) hl) ?_
    (fun o b hb => Nat.add_le_add (h.counted o b hb).1 (Nat.zero_le _)) (fun w hw => nomatch hw)
    (h.heap u _ hx')
  intro v hv o p i _ htouch hl
  rw [mem_singleton.mp hv] at htouch
  exact absurd hl (not_lent_of_leaves_none hbase htop hbound hnone htouch)

end

/-- `mmap`, once the source is known. The invariants are kept with the new area in place, and it is
taken away again when the mapping fails. -/
theorem mmapAt_sound (h : st.Sound st.unit) (hx : st.unit u = some x) {length : Nat}
    (hbase : pageSize ∣ base) (hlen : pageSize ∣ length) (hbound : base + length ≤ userEnd)
    (hfree : st.RangeFree x.realm base (length / pageSize)) {prot : Nat} {flags : Nat}
    {handle : UInt64} {offset : Nat} (hflags : mapAnonymous flags → src = .anonymous)
    (hsrc : ∀ o ∈ src.backing, st.Slack st.unit o 1 ∧ o < st.nextObj) {vmaOk : Bool} :
    (st.mmapAt u x base length prot flags handle offset src vmaOk).1.Sound
      (st.mmapAt u x base length prot flags handle offset src vmaOk).1.unit := by
  have hcancel : length / pageSize * pageSize = length := Nat.div_mul_cancel hlen
  generalize hn : length / pageSize = n at *
  have hlive := (h.mapped.live u x hx).1
  generalize harea : (⟨base, length, prot, flags, offset, handle, src.backing⟩ : VmArea) = area
  have hstart : area.start = base := by rw [← harea]
  have htop : area.top = area.start + n * pageSize := by rw [← harea, hcancel]; rfl
  have htop' : area.top ≤ userEnd := by rw [htop, hstart, hcancel]; exact hbound
  have hbacking : area.backing = src.backing := by rw [← harea]
  have hareaOk : AreaOk st.nextObj area := by
    refine ⟨fun hanon => ?_, fun o ho => ?_⟩
    · rw [hbacking, hflags (by rw [← hanon, ← harea])]
      rfl
    · rw [hbacking] at ho
      exact ⟨(hsrc o ho).2, hstart ▸ hbase⟩
  have hadd := addArea_mapped (hstart ▸ hbase) htop htop' h.mapped hx (hstart ▸ hfree) hareaOk
    fun o ho => (hsrc o (hbacking ▸ ho)).1
  generalize hunit : update st.unit u (some { x with vmas := area :: x.vmas }) = unit' at hadd
  have hx' : unit' u = some { x with vmas := area :: x.vmas } := by rw [← hunit]; simp
  -- the pages may be mapped: no unit has memory there, and the new area is for them
  have hmap : ∀ j, 0 ≤ j → j < 0 + n →
      MayMap unit' x.realm (pageOf (base + j * pageSize)) (src.lender j) := by
    intro j _ hj
    rw [Nat.zero_add] at hj
    cases src with
    | anonymous => exact mayMap_none
    | object o off =>
      have hnot : mapAnonymous flags = false := by
        cases hf : mapAnonymous flags with
        | false => rfl
        | true => cases hflags hf
      have hjn : j * pageSize < n * pageSize := Nat.mul_lt_mul_of_pos_right hj (by decide)
      have hpage := pageOf_add_mul (i := j) hbase
        (Nat.lt_of_lt_of_le (Nat.add_lt_add_left hjn base) (hcancel ▸ hbound))
      generalize pageOf (base + j * pageSize) = p at hpage ⊢
      have hlow : base ≤ p * pageSize := hpage ▸ Nat.le_add_right _ _
      have hhigh : (p + 1) * pageSize ≤ base + n * pageSize := by
        rw [Nat.succ_mul, hpage, Nat.add_assoc, ← Nat.succ_mul]
        exact Nat.add_le_add_left (Nat.mul_le_mul_right _ hj) _
      constructor
      · intro w y hy hr hown
        exfalso
        by_cases hw : w = u
        · subst hw
          rw [hx', Option.some.injEq] at hy
          subst hy
          refine hfree.2.not_ownMemory hlive hx hlow hhigh ?_
          rcases hown with ⟨v, hv, hanon, htouch⟩ | hheap
          · rcases mem_cons.mp hv with rfl | hv
            · rw [← harea] at hanon
              rw [hnot] at hanon
              cases hanon
            · exact .inl ⟨v, hv, hanon, htouch⟩
          · exact .inr hheap
        · have hy' : st.unit w = some y := by rw [← hunit, update_of_ne hw] at hy; exact hy
          exact Unclaimed.not_ownMemory (hr ▸ hfree.2) (h.mapped.live w y hy').1 hy' hlow hhigh hown
      intro o' i' hl
      cases hl
      refine ⟨u, _, hx', rfl, area, mem_cons_self, hbacking, ?_⟩
      rw [VmArea.Touches, hstart, htop, hstart, hpage, Nat.succ_mul, hpage]
      exact ⟨Nat.lt_of_le_of_lt (Nat.le_add_right _ _) (Nat.lt_add_of_pos_right (by decide)),
        Nat.add_lt_add_left hjn base⟩
  have hsound : st.Sound unit' := ⟨h.frames, hadd⟩
  have hloop := mmapLoop_sound hsound hmap (protWrite prot) (mapShared flags)
  have hleaves := mmapLoop_leaves_present hsound hbase (by rw [Nat.zero_add, hcancel]; exact hbound) hmap
    (fun j hj => absurd hj (Nat.not_lt_zero j)) (fun j _ hj => hfree.1 j (by omega)) (protWrite prot)
    (mapShared flags)
  have hloopUnit := mmapLoop_unit st x.realm base (protWrite prot) (mapShared flags) src n 0
  rw [Nat.zero_add] at hleaves
  -- a mapping that is taken back: nothing is mapped in the range, so the area can go
  have hundo : ∀ st1 : VmSt, st1.Sound unit' → SameCounts st st1 → st1.unit = st.unit →
      (∀ j, j < n → st1.leafAt x.realm (pageOf (base + j * pageSize)) = none) →
      (st1.dropBacking src.backing).Sound (st1.dropBacking src.backing).unit := by
    intro st1 h1 hcounts hunit1 hnone
    rw [dropBacking_unit, hunit1]
    refine (dropBacking_sound ⟨h1.frames, ?_⟩ fun o ho => (hsrc o ho).1.congr hcounts).1
    rw [← hunit] at h1
    exact dropArea_mapped (hstart ▸ hbase) htop htop' h1.mapped hx (hstart ▸ hnone)
  unfold VmSt.mmapAt
  dsimp only
  rw [hn, harea]
  generalize mmapLoop x.realm base (protWrite prot) (mapShared flags) src n 0 st = y at *
  obtain ⟨hloop, hcounts⟩ := hloop
  split
  · split
    · have hstore : (y.1.setUnit u { x with vmas := area :: x.vmas }).Sound
          (y.1.setUnit u { x with vmas := area :: x.vmas }).unit := by
        refine Sound.store ?_ fun kind i => ?_
        · rw [hloopUnit, hunit]
          exact hloop
        · rw [hloopUnit, hx]
          exact runAt_setAreas (x := x) _ x.heapEnd kind i
      exact hstore.setMappings
    · refine hundo _ (unmapPages_sound hloop _ _ _)
        (hcounts.trans (.of_obj unmapPages_obj)) ((unmapPages_unit _ _ _ _).trans hloopUnit) ?_
      exact fun j hj => unmapPages_none hloop.frames hleaves.1 hj
  · rename_i hfail
    exact hundo y.1 hloop hcounts hloopUnit (hleaves.2 (by simpa using hfail))

/-- Where `mmap` puts a mapping. -/
def mmapRange (x : VmUnit) (addr length : Nat) : Option Nat :=
  if alignDown addr ≠ 0 then some (alignDown addr)
  else findFreeRange x.vmas (alignUp length) (x.vmas.length + 1) mmapBase

theorem RangeFree.congr (h : st.RangeFree r base n) (hspace : st'.space = st.space)
    (hunit : st'.unit = st.unit) : st'.RangeFree r base n := by
  unfold RangeFree Unclaimed leafAt at *
  rw [hspace, hunit]
  exact h

theorem mmap_sound (h : st.Sound st.unit) (htidy : st.Tidy) {length : Nat}
    (hfits : length = 0 ∨ ∀ x ∈ st.unit u, MmapFits x.vmas (alignDown addr) (alignUp length))
    (hfree : length = 0 ∨ ∀ x ∈ st.unit u, ∀ base ∈ mmapRange x addr length,
      st.RangeFree x.realm base (alignUp length / pageSize))
    (hlow : st.CountsLow 1) {prot flags : Nat} {handle : UInt64} {offset : Nat} {vmaOk : Bool} :
    (st.mmap u addr length prot flags handle offset vmaOk).1.Sound
      (st.mmap u addr length prot flags handle offset vmaOk).1.unit := by
  unfold VmSt.mmap
  split
  · exact h
  rename_i hlength
  split
  · exact h
  rename_i x hx
  have hfits := hfits.resolve_left hlength x hx
  have hfree := hfree.resolve_left hlength x hx
  split
  · exact h
  dsimp only
  split
  · exact h
  rename_i base hbase
  split
  · exact h
  rename_i hne
  obtain ⟨hdvd, hbound, -⟩ := mmap_base (htidy.units u x hx) alignDown_dvd hfits hbase hne
  have hrange := hfree base hbase
  split
  · exact mmapAt_sound h hx hdvd (alignUp_dvd _) hbound hrange
      (fun _ => rfl) (fun o ho => by cases ho)
  rename_i hflags
  have hsame := sameTables_resolveBacking st x.realm handle (alignUp length) offset
  obtain ⟨hres, hok⟩ := resolveBacking_sound h hlow
  rw [← hsame.unit] at hres hok hx
  split
  · exact hres
  rename_i o off heq
  refine mmapAt_sound hres hx hdvd (alignUp_dvd _) hbound
    (hrange.congr hsame.space hsame.unit)
    (fun hanon => absurd hanon hflags) (fun o' ho' => ?_)
  cases ho'
  exact hok o off heq

/-! ## brk -/

/-- The loop of a growing `brk` maps memory only. -/
theorem growLoop_sound (h : st.Sound unit) (r n a : Nat) : (growLoop r n a st).1.Sound unit ∧
      ∀ r' p l, (growLoop r n a st).1.lenderAt r' p = some l →
        st.lenderAt r' p = some l ∨ l = none := by
  induction n generalizing st a with
  | zero => exact ⟨h, fun _ _ _ hl => .inl hl⟩
  | succ n ih =>
    obtain ⟨hframes, hloose⟩ := h.frames.requestPage
    have hmapped : st.requestPage.1.Mapped unit := h.mapped.setPhys _
    rw [growLoop]
    split
    · exact ⟨⟨hframes, hmapped⟩, fun _ _ _ hl => .inl hl⟩
    rename_i hne
    have hzero : (st.requestPage.1.zeroPage st.requestPage.2).Sound unit :=
      ⟨hframes.setPhys (fun _ hf => hf) rfl, hmapped.setPhys _⟩
    have hloose' : (st.requestPage.1.zeroPage st.requestPage.2).Mappable
        (frameOf st.requestPage.2) .fresh := by
      rw [(hloose hne).aligned]
      exact (hloose hne).setPhys fun _ hf => hf
    have hstep : ((st.requestPage.1.zeroPage st.requestPage.2).mapPage r a st.requestPage.2 true true
        .fresh).Sound unit :=
      ⟨hzero.frames.mapPage r a hloose' true true, hzero.mapped.mapPage _ true true mayMap_none⟩
    obtain ⟨hrest, hlend⟩ := ih hstep (a + pageSize)
    refine ⟨hrest, fun r' p l hl => ?_⟩
    rcases hlend r' p l hl with hold | hnone
    · obtain ⟨e, he, rfl⟩ := lenderAt_eq_some.mp hold
      rcases leafAt_mapPage he with hold | ⟨-, -, rfl⟩
      · exact .inl (lenderAt_eq_some.mpr ⟨e, hold, rfl⟩)
      · exact .inr rfl
    · exact .inr hnone

/-- Where `get_physical_address` finds something there is a present entry. -/
theorem physicalAddress_ne_zero {va : Nat} (h : st.physicalAddress r va ≠ 0) :
    ∃ e, st.leafAt r (pageOf va) = some e ∧ e.present ∧
      st.physicalAddress r va = e.frame + va % pageSize := by
  unfold physicalAddress at h ⊢
  cases hpt : st.space r with
  | none =>
    rw [hpt] at h
    exact absurd rfl h
  | some pt =>
    rw [hpt] at h
    simp only [Option.map_some, Option.getD_some, PageTable.getPhysicalAddress] at h ⊢
    cases hentry : pt.entry va with
    | none =>
      rw [hentry] at h
      exact absurd rfl h
    | some e =>
      rw [hentry] at h
      dsimp only at h ⊢
      split_ifs at h with hpresent
      · refine ⟨e, ?_, hpresent, if_pos hpresent⟩
        rw [leafAt, hpt]
        exact PageTable.leaf_of_entry hentry
      · exact absurd rfl h

/-- The loops of `munmap` and of a shrinking `brk`. Frames may be given back where the pages own
them. -/
theorem unmapRange_sound (h : st.Sound unit) {va : Nat} {free : Bool}
    (hown : free → ∀ j, j < n → ∀ l,
      st.lenderAt r (pageOf (va + j * pageSize)) = some l → l = none) :
    (st.unmapRange r va free n).Sound unit := by
  induction n generalizing st va with
  | zero => exact h
  | succ n ih =>
    have hfirst : free → ∀ l, st.lenderAt r (pageOf va) = some l → l = none := by
      intro hf l hl
      refine hown hf 0 (Nat.succ_pos n) l ?_
      rwa [Nat.zero_mul, Nat.add_zero]
    have hrest : ∀ st' : VmSt, (∀ p l, st'.lenderAt r p = some l → st.lenderAt r p = some l) →
        free → ∀ j, j < n → ∀ l,
          st'.lenderAt r (pageOf (va + pageSize + j * pageSize)) = some l → l = none := by
      intro st' hsub hf j hj l hl
      refine hown hf (j + 1) (Nat.succ_lt_succ hj) l ?_
      have := hsub _ _ hl
      rwa [show va + pageSize + j * pageSize = va + (j + 1) * pageSize by rw [Nat.succ_mul]; omega]
        at this
    have hunmap : ∀ p l, (st.unmapPage r va).lenderAt r p = some l → st.lenderAt r p = some l := by
      intro p l hl
      obtain ⟨e, he, hl⟩ := lenderAt_eq_some.mp hl
      exact lenderAt_eq_some.mpr ⟨e, leafAt_unmapPage he, hl⟩
    rw [unmapRange]
    split
    · exact ih h (hrest st fun _ _ hl => hl)
    rename_i hphys
    split
    · rename_i hfree
      refine ih ⟨?_, (h.mapped.unmapPage r va).setPhys _⟩ (hrest _ hunmap)
      -- the page is present, and its frame is its own
      obtain ⟨e, he, hpresent, heq⟩ := physicalAddress_ne_zero hphys
      have hl := hfirst hfree _ (lenderAt_eq_some.mpr ⟨e, he, rfl⟩)
      have haligned := (h.frames.leaf_held he).1
      refine (h.frames.unmapPage r va).1.freePage ?_
      rw [heq, frameOf_eq haligned (Nat.le_add_right _ _)
        (Nat.add_lt_add_left (Nat.mod_lt _ (by decide)) _)]
      exact (unmapPage_page h.frames he hpresent).2 hl
    · exact ih (h.unmapPage r va) (hrest _ hunmap)

/-- The arithmetic of a heap that grows or shrinks: the range between its two ends, in pages. -/
theorem grow_range {heapEnd : Nat} (hgrow : heapEnd ≤ addr) (haddr : addr ≤ userHeapMax) :
    alignUp heapEnd ≤ alignUp addr ∧
      (alignUp addr - alignUp heapEnd) / pageSize * pageSize = alignUp addr - alignUp heapEnd ∧
      alignUp addr ≤ userEnd ∧ heapEnd ≤ alignUp heapEnd ∧ addr ≤ alignUp addr := by
  have hmax : userHeapMax ≤ userEnd := by decide
  have hup : alignUp addr ≤ userHeapMax := alignUp_le_of_dvd haddr (by decide) hmax
  have haddr' : addr ≤ alignUp addr := le_alignUp (by omega)
  have hle : alignUp heapEnd ≤ alignUp addr :=
    alignUp_le_of_dvd (by omega) (alignUp_dvd addr) (by omega)
  refine ⟨hle, Nat.div_mul_cancel ?_, by omega, le_alignUp (by omega), haddr'⟩
  exact Nat.dvd_sub (alignUp_dvd addr) (alignUp_dvd heapEnd)

/-- A multiple of the page size that is not below an address is not below its rounding. -/
theorem alignUp_le_mul {p : Nat} (h : n ≤ p * pageSize) (hp : p * pageSize ≤ userEnd) :
    alignUp n ≤ p * pageSize := alignUp_le_of_dvd h (Nat.dvd_mul_left _ _) hp

section

variable (h : st.Mapped unit) (hx : unit u = some x) (haddr : addr ≤ userHeapMax)

include h hx haddr

/-- A heap with another end, in which at most the area `v` ends with it now. -/
theorem resizeArea_mapped {pre post ps : List VmArea} {v : VmArea} (hlist : x.vmas = pre ++ v :: post) 
    (hstart : v.start ≤ addr) (hps : ps = [] ∨ ps = [{ v with length := addr - v.start }])
    (hgrown : ∀ p l, v.top ≤ p * pageSize → p * pageSize < addr →
      st.lenderAt x.realm p = some l → l = none)
    (hback : v.backing ≠ none → ps ≠ [] ∧ v.top ≤ addr)
    (hheap : ∀ p l, ({ x with heapEnd := addr } : VmUnit).HeapPage p →
      st.lenderAt x.realm p = some l → l = none) :
    st.Mapped (update unit u (some { x with vmas := pre ++ (ps ++ post), heapEnd := addr })) := by
  have hv : v ∈ x.vmas := hlist ▸ mem_append_right _ mem_cons_self
  have hparts : ∀ w ∈ ps, w = { v with length := addr - v.start } := by
    rintro w hw
    rcases hps with rfl | rfl
    · exact absurd hw not_mem_nil
    · exact mem_singleton.mp hw
  have htop := top_cut hstart
  refine replaceAreas_mapped h hx pre post [v] ps hlist (fun w hw hanon p l htouch hl => ?_) hheap
    (fun w hw o p i ho htouch _ => ?_) (fun o b hb => ?_) (fun w hw => ?_) (.inr haddr)
  · -- a page of the old area, or one that the heap has grown over
    rw [hparts w hw] at hanon htouch
    obtain ⟨hlow, hhigh⟩ := htouch
    rcases Nat.lt_or_ge (p * pageSize) v.top with hlt | hge
    · exact h.memory u x hx p l (.inl ⟨v, hv, hanon, hlow, hlt⟩) hl
    · exact hgrown p l hge (htop ▸ hhigh) hl
  · rw [mem_singleton.mp hw] at ho htouch
    obtain ⟨hne, hle⟩ := hback (by rw [ho]; nofun)
    obtain ⟨hlow, hhigh⟩ := htouch
    rw [hps.resolve_left hne]
    exact ⟨_, mem_singleton.mpr rfl, ho, hlow, by omega⟩
  · refine Nat.add_le_add (h.counted o b hb).1 ?_
    rcases hps with rfl | rfl
    · exact Nat.zero_le _
    · exact Nat.le_refl _
  · rw [hparts w hw]
    exact ⟨(h.area u x hx v hv).anonymous, (h.area u x hx v hv).backing⟩

/-- The areas of a heap that has grown. -/
theorem growAreas_mapped (hok : AreasOk x.vmas) (hgrow : x.heapEnd < addr)
    (hfits : ∀ v ∈ x.vmas, v.start < addr → v.top ≤ x.heapEnd)
    (hnew : ∀ p l, alignUp x.heapEnd ≤ p * pageSize → p * pageSize < alignUp addr →
      st.lenderAt x.realm p = some l → l = none) :
    st.Mapped (update unit u (some { x with vmas := growAreas x addr, heapEnd := addr })) := by
  obtain ⟨hle, -, hbound, hup, hup'⟩ := grow_range hgrow.le haddr
  have hheap : ∀ p l, ({ x with heapEnd := addr } : VmUnit).HeapPage p →
      st.lenderAt x.realm p = some l → l = none := by
    rintro p l ⟨hlow, hhigh⟩ hl
    rcases Nat.lt_or_ge (p * pageSize) (alignUp x.heapEnd) with hlt | hge
    · exact h.memory u x hx p l (.inr ⟨hlow, hlt⟩) hl
    · exact hnew p l hge hhigh hl
  unfold growAreas
  split
  · rename_i vmas hvmas
    obtain ⟨pre, v, post, hlist, rfl, hstart, hend⟩ := updateArea_some hvmas
    have hv : v ∈ x.vmas := hlist ▸ mem_append_right _ mem_cons_self
    have htop := hfits v hv (by omega)
    rw [hok.end_eq hv] at hend
    refine resizeArea_mapped h hx haddr hlist (by omega) (.inr rfl) (fun p l hp hp' hl => ?_)
      (fun _ => ⟨nofun, by omega⟩) hheap
    exact hnew p l (alignUp_le_mul (by omega) (by omega)) (by omega) hl
  refine replaceAreas_mapped h hx [] x.vmas [] [_] rfl (fun w hw hanon => ?_) hheap
    (fun w hw => nomatch hw) (fun o b hb => Nat.add_le_add_right (h.counted o b hb).1 _)
    (fun w hw => ?_) (.inr haddr)
  · rw [mem_singleton.mp hw] at hanon
    have hflags : mapAnonymous 0 = false := by decide
    exact absurd (hflags.symm.trans hanon) (by decide)
  · rw [mem_singleton.mp hw]
    exact ⟨fun _ => rfl, fun o ho => by cases ho⟩

/-- The areas of a heap that has shrunk. -/
theorem shrinkAreas_mapped (hok : AreasOk x.vmas) (hle : alignUp addr ≤ alignUp x.heapEnd)
    (hcut : ∀ v ∈ x.vmas, v.start ≤ addr → addr < v.top → v.backing = none) :
    st.Mapped (update unit u (some { x with vmas := shrinkAreas x addr, heapEnd := addr })) := by
  have hheap : ∀ p l, ({ x with heapEnd := addr } : VmUnit).HeapPage p →
      st.lenderAt x.realm p = some l → l = none := by
    rintro p l ⟨hlow, hhigh⟩ hl
    exact h.memory u x hx p l (.inr ⟨hlow, Nat.lt_of_lt_of_le hhigh hle⟩) hl
  unfold shrinkAreas
  cases hvmas : updateArea addr _ x.vmas with
  | none =>
    rw [Option.getD_none]
    exact replaceAreas_mapped h hx [] x.vmas [] [] rfl (fun w hw => nomatch hw) hheap
      (fun w hw => nomatch hw) (fun o b hb => Nat.add_le_add_right (h.counted o b hb).1 _)
      (fun w hw => nomatch hw) (.inr haddr)
  | some vmas =>
    rw [Option.getD_some]
    obtain ⟨pre, v, post, hlist, rfl, hstart, hend⟩ := updateArea_some hvmas
    have hv : v ∈ x.vmas := hlist ▸ mem_append_right _ mem_cons_self
    have hproper := (hok.proper v hv).1
    rw [hok.end_eq hv] at hend
    refine resizeArea_mapped h hx haddr hlist hstart (ite_eq_or_eq ..)
      (fun p l hp hp' => by omega) (fun hne => ?_) hheap
    -- an area for an object ends where the heap ends now
    have htop : v.top ≤ addr := Nat.le_of_not_lt fun hlt => hne (hcut v hv hstart hlt)
    rw [if_neg (by omega)]
    exact ⟨nofun, htop⟩

end

theorem brk_sound (h : st.Sound st.unit) (htidy : st.Tidy)
    (hfits : ∀ x ∈ st.unit u, x.heapEnd < addr → ∀ v ∈ x.vmas, v.start < addr → v.top ≤ x.heapEnd)
    (hfree : ∀ x ∈ st.unit u, x.heapEnd < addr → st.RangeFree x.realm (alignUp x.heapEnd)
      ((alignUp addr - alignUp x.heapEnd) / pageSize))
    (hcut : ∀ x ∈ st.unit u, addr ≤ x.heapEnd → ∀ v ∈ x.vmas, v.start ≤ addr → addr < v.top →
      v.backing = none) : (st.brk u addr).1.Sound (st.brk u addr).1.unit := by
  unfold VmSt.brk
  split
  · exact h
  rename_i x hx
  have hareas := htidy.units u x hx
  have hruns : ∀ vmas heapEnd kind i, runAt (some { x with vmas := vmas, heapEnd := heapEnd }) kind i =
      runAt (st.unit u) kind i := by
    intro vmas heapEnd kind i
    rw [hx]
    exact runAt_setAreas vmas heapEnd kind i
  dsimp only
  split_ifs with huser hstart hzero hlow hhigh hgrow hok
  all_goals first | exact h | skip
  · -- the heap grows
    obtain ⟨hle, hpages, hbound, -, -⟩ := grow_range hgrow.le (Nat.le_of_not_lt hhigh)
    obtain ⟨hloop, hlend⟩ := growLoop_sound h x.realm ((alignUp addr - alignUp x.heapEnd) / pageSize)
      (alignUp x.heapEnd)
    have hunit := growLoop_unit st x.realm ((alignUp addr - alignUp x.heapEnd) / pageSize)
      (alignUp x.heapEnd)
    generalize growLoop _ _ _ st = y at *
    have hmapped := growAreas_mapped hloop.mapped hx (Nat.le_of_not_lt hhigh) hareas hgrow
      (hfits x hx hgrow) fun p l hp hp' hl => ?_
    · refine Sound.store ⟨hloop.frames, ?_⟩ fun kind i => ?_
      · rw [hunit]
        exact hmapped
      · rw [hunit]
        exact hruns _ _ kind i
    -- nothing was mapped there before, so the page is from the loop
    rcases hlend _ p l hl with hold | hnone
    · have hfree := (hfree x hx hgrow).1
      obtain ⟨j, hj, rfl⟩ := exists_page (alignUp_dvd x.heapEnd)
        (n := (alignUp addr - alignUp x.heapEnd) / pageSize) (p := p) (by rw [hpages]; omega)
        (by rw [Nat.succ_mul]; have : 0 < pageSize := by decide
            omega) (by rw [hpages]; omega)
      obtain ⟨e, he, -⟩ := lenderAt_eq_some.mp hold
      rw [hfree j hj] at he
      cases he
    · exact hnone
  · obtain ⟨hloop, -⟩ := growLoop_sound h x.realm ((alignUp addr - alignUp x.heapEnd) / pageSize)
      (alignUp x.heapEnd)
    rw [growLoop_unit]
    exact hloop
  -- the heap shrinks
  have hend : x.heapEnd ≤ userHeapMax := by
    rcases h.mapped.heap u x hx with heq | hle
    · omega
    · exact hle
  obtain ⟨hle, hpages, htop, -, -⟩ := grow_range (Nat.le_of_not_lt hgrow) hend
  have hlow' := (grow_range (Nat.le_of_not_lt hlow) (Nat.le_of_not_lt hhigh)).1
  have hunmap : (st.unmapRange x.realm (alignUp addr) true
      ((alignUp x.heapEnd - alignUp addr) / pageSize)).Sound st.unit := by
    refine unmapRange_sound h fun _ j hj l hl => h.mapped.memory u x hx _ l (.inr ?_) hl
    have hjn : j * pageSize < alignUp x.heapEnd - alignUp addr := by
      rw [← hpages]
      exact Nat.mul_lt_mul_of_pos_right hj (by decide)
    have hpage := pageOf_add_mul (i := j) (alignUp_dvd addr) (by omega)
    rw [VmUnit.HeapPage, hpage]
    omega
  have hunit := unmapRange_unit st x.realm (alignUp addr) true
    ((alignUp x.heapEnd - alignUp addr) / pageSize)
  refine Sound.store ⟨hunmap.frames, ?_⟩ fun kind i => ?_
  · rw [hunit]
    exact shrinkAreas_mapped hunmap.mapped hx (Nat.le_of_not_lt hhigh) hareas hle
      (hcut x hx (Nat.le_of_not_lt hgrow))
  · rw [hunit]
    exact hruns _ _ kind i

end VmSt

end Vespera.Memory
