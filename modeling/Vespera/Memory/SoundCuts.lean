import Vespera.Memory.SoundCalls

/-! # Cutting areas and the owners of frames

`munmap` and `mprotect` go through the areas of a unit and put parts in the place of each. With the
parts in place of the areas already done, the areas stay true to what is mapped at every area of
the loop: `munmap` has removed the pages of what it cut out, and `mprotect` cuts nothing out. An
object gets one more mapping for every area more, and one less when an area is gone.

* `munmapLoop_sound`, `munmap_sound`;
* `protectLoop_sound`, `mprotect_sound`.
-/

namespace Vespera.Memory

open Function List Lib

namespace VmSt

variable {st st' : VmSt} {unit : Nat → Option VmUnit} {u r base stop : Nat} {x : VmUnit} {v : VmArea}
  {n : Nat}

/-! ## The pages of a cut -/

/-- The pages that a loop from `a` to `b` visits lie between. -/
theorem lt_of_lt_pageSteps {a b j : Nat} (h : j < pageSteps a b) : a + j * pageSize < b := by
  have h : j < (b - a + 4096 - 1) / 4096 := h
  show a + j * 4096 < b
  omega

/-- From a page on, the loop visits all pages that have something of the range. -/
theorem exists_step {a b p : Nat} (ha : pageSize ∣ a) (hb : b ≤ userEnd)
    (hlow : a < (p + 1) * pageSize)
    (hhigh : p * pageSize < b) : ∃ j, j < pageSteps a b ∧ p = pageOf (a + j * pageSize) := by
  obtain ⟨k, rfl⟩ := ha
  rw [Nat.mul_comm pageSize k] at *
  have hkp : k ≤ p := Nat.lt_succ_iff.mp (Nat.lt_of_mul_lt_mul_right hlow)
  have hsum : k * pageSize + (p - k) * pageSize = p * pageSize := by
    rw [← Nat.add_mul, show k + (p - k) = p by omega]
  refine ⟨p - k, ?_, ?_⟩
  · have hhigh : p * 4096 < b := hhigh
    show p - k < (b - k * 4096 + 4096 - 1) / 4096
    omega
  · rw [hsum, pageOf_eq (Nat.lt_of_lt_of_le hhigh hb), Nat.mul_div_cancel _ (by decide)]

/-- A page that is visited inside of an area belongs to it. -/
theorem touches_of_step {a b j : Nat} (hb : b ≤ userEnd) (hva : v.start ≤ a) (hbv : b ≤ v.top)
    (hj : j < pageSteps a b) : v.Touches (pageOf (a + j * pageSize)) := by
  have hlt := lt_of_lt_pageSteps hj
  rw [pageOf_eq (by omega)]
  have hdiv := Nat.div_mul_le_self (a + j * pageSize) pageSize
  have hmod := Nat.lt_div_mul_add (a := a + j * pageSize) (b := pageSize) (by decide)
  constructor
  · rw [Nat.succ_mul]
    omega
  · omega

/-- The pages of objects are not frame 0. -/
theorem Frames.object_ne_zero (h : st.Frames) {p o i : Nat} {e : Pte} (he : st.leafAt r p = some e)
    (hl : e.origin.lender = some (.object o i)) : e.frame ≠ 0 := by
  have hown := h.lent r p e _ he hl
  rw [ownerAt_object] at hown
  cases hb : st.obj o with
  | none =>
    rw [hb] at hown
    cases hown
  | some b =>
    rw [hb] at hown
    exact (pageAt_eq_some.mp hown).2

theorem leafAt_unmapRange {va : Nat} {free : Bool} {r' p : Nat} {e : Pte}
    (h : (st.unmapRange r va free n).leafAt r' p = some e) : st.leafAt r' p = some e := by
  induction n generalizing st va with
  | zero => exact h
  | succ n ih =>
    have h := ih h
    split_ifs at h
    · exact h
    · exact leafAt_unmapPage h
    · exact leafAt_unmapPage h

/-- What the loop has visited shows no page of an object any more, if it was all present. -/
theorem unmapRange_gone (h : st.Frames) {va : Nat}
    (hpresent : ∀ j, j < n → ∀ e, st.leafAt r (pageOf (va + j * pageSize)) = some e →
      e.present) {j o i : Nat} (hj : j < n) :
    (st.unmapRange r va false n).lenderAt r (pageOf (va + j * pageSize)) ≠
      some (some (.object o i)) := by
  induction n generalizing st va j with
  | zero => omega
  | succ n ih =>
    intro hlend
    obtain ⟨e, he, hl⟩ := lenderAt_eq_some.mp hlend
    rw [unmapRange] at he
    simp only [Bool.false_eq_true, if_false] at he
    cases j with
    | zero =>
      rw [Nat.zero_mul, Nat.add_zero] at he
      have he := leafAt_unmapRange he
      have hfirst := hpresent 0 (Nat.succ_pos n)
      rw [Nat.zero_mul, Nat.add_zero] at hfirst
      split_ifs at he with hphys
      · -- a present entry that is not found has frame 0
        have hzero : st.physicalAddress r va = e.frame + va % pageSize := by
          obtain ⟨pt, hpt, hleaf⟩ := Option.bind_eq_some_iff.mp he
          have hentry := (h.walk r pt hpt).entry hleaf
          simp [physicalAddress, hpt, PageTable.getPhysicalAddress, hentry, hfirst e he]
        have := h.object_ne_zero he hl
        omega
      · rw [leafAt_unmapPage_self h hfirst] at he
        cases he
    | succ j =>
      have hstep : ∀ k, va + pageSize + k * pageSize = va + (k + 1) * pageSize := by
        intro k
        rw [Nat.succ_mul, Nat.add_assoc, Nat.add_comm pageSize]
      rw [← hstep j] at he
      have hshift : ∀ st' : VmSt, st'.Frames → (∀ p e, st'.leafAt r p = some e → st.leafAt r p = some e) →
          (st'.unmapRange r (va + pageSize) false n).leafAt r (pageOf (va + pageSize + j * pageSize)) =
            some e → False := by
        intro st' h' hsub he
        refine ih h' (fun k hk e' he' => ?_) (Nat.lt_of_succ_lt_succ hj)
          (lenderAt_eq_some.mpr ⟨e, he, hl⟩)
        refine hpresent (k + 1) (Nat.succ_lt_succ hk) e' ?_
        rw [← hstep k]
        exact hsub _ e' he'
      split_ifs at he
      · exact hshift st h (fun _ _ hx => hx) he
      · exact hshift _ (h.unmapPage r va).1 (fun _ _ hx => leafAt_unmapPage hx) he

/-- `add_mapping` for a part that is cut off. -/
theorem shareBacking_sound (h : st.Sound unit) (hlow : st.CountsLow (n + 1))
    (hanon : mapAnonymous v.flags → v.backing = none) :
    (st.shareBacking v).Sound unit ∧ (st.shareBacking v).CountsLow n ∧
      ∀ k, (∀ o ∈ v.backing, st.Slack unit o k) →
        ∀ o ∈ v.backing, (st.shareBacking v).Slack unit o (k + 1) := by
  unfold VmSt.shareBacking
  cases hback : v.backing with
  | none => exact ⟨h, hlow.mono (Nat.le_succ n), fun k _ o ho => by cases ho⟩
  | some o =>
    have hflags : ¬ mapAnonymous v.flags := fun hf => by
      rw [hanon hf] at hback
      cases hback
    dsimp only
    rw [if_neg hflags]
    obtain ⟨hadd, hlow', hslack⟩ := addMapping_sound (o := o) h hlow
    refine ⟨hadd, hlow', fun k hk o' ho' => ?_⟩
    cases ho'
    exact hslack k (hk o rfl)

/-- The areas of a unit may change places. -/
theorem Mapped.perm (h : st.Mapped unit) (hx : unit u = some x) {vs : List VmArea}
    (hperm : x.vmas.Perm vs) : st.Mapped (update unit u (some { x with vmas := vs })) := by
  refine h.setUnit hx rfl (fun p l hp hl => ?_) (fun p o i hc _ => ?_) (fun o b hb => ?_)
    (fun w hw => h.area u x hx w (hperm.mem_iff.mpr hw)) (h.heap u x hx)
  · refine h.memory u x hx p l ?_ hl
    rcases hp with ⟨w, hw, hanon, htouch⟩ | hheap
    · exact .inl ⟨w, hperm.mem_iff.mpr hw, hanon, htouch⟩
    · exact .inr hheap
  · obtain ⟨w, hw, hback, htouch⟩ := hc
    exact ⟨w, hperm.mem_iff.mp hw, hback, htouch⟩
  · have hcount := (h.counted o b hb).1
    exact Nat.add_le_add hcount (Nat.le_of_eq (hperm.countP_eq _).symm)

/-! ## Parts of an area -/

/-- Parts that stand in the place of an area: they say the same of its pages, and of the pages that
they leave out nothing is mapped. -/
structure Stands (st : VmSt) (r : Nat) (v : VmArea) (ps : List VmArea) : Prop where
  flags : ∀ w ∈ ps, w.flags = v.flags ∧ w.backing = v.backing
  inside : ∀ w ∈ ps, ∀ p, w.Touches p → v.Touches p
  covers : ∀ o p i, v.backing = some o → v.Touches p →
    st.lenderAt r p = some (some (.object o i)) → ∃ w ∈ ps, w.Touches p
  aligned : ∀ w ∈ ps, v.backing.isSome → pageSize ∣ w.start

/-- An area is replaced by its parts, if the object's count has room for the additional ones. -/
theorem Stands.replace {ps pre post : List VmArea} (hs : st.Stands x.realm v ps)
    (h : st.Mapped unit) (hx : unit u = some x) (hlist : x.vmas = pre ++ v :: post)
    (hslack : ∀ o ∈ v.backing, st.Slack unit o (ps.length - 1)) :
    st.Mapped (update unit u (some { x with vmas := pre ++ (ps ++ post) })) := by
  have hv : v ∈ x.vmas := hlist ▸ mem_append_right _ mem_cons_self
  have harea := h.area u x hx v hv
  refine replaceAreas_mapped h hx pre post [v] ps hlist ?_ ?_ ?_ ?_ ?_ (h.heap u x hx)
  · intro w hw hanon p l htouch hl
    refine h.memory u x hx p l (.inl ⟨v, hv, ?_, hs.inside w hw p htouch⟩) hl
    rw [← (hs.flags w hw).1]
    exact hanon
  · intro p l hp hl
    exact h.memory u x hx p l (.inr hp) hl
  · intro v' hv' o p i hback htouch hl
    rw [mem_singleton.mp hv'] at hback htouch
    obtain ⟨w, hw, htouch'⟩ := hs.covers o p i hback htouch hl
    exact ⟨w, hw, (hs.flags w hw).2.trans hback, htouch'⟩
  · intro o b hb
    by_cases hback : v.backing = some o
    · have hle := hslack o hback b hb
      have hall : countBacking o ps ≤ ps.length := countP_le_length
      have hone : countBacking o [v] = 1 := by simp [countBacking, hback]
      omega
    have hnone : countBacking o ps = 0 := by
      refine countP_eq_zero.mpr fun w hw => ?_
      rw [decide_eq_true_eq, (hs.flags w hw).2]
      exact hback
    have hle := (h.counted o b hb).1
    omega
  intro w hw
  refine ⟨fun hanon => ?_, fun o ho => ?_⟩
  · rw [(hs.flags w hw).2]
    exact harea.anonymous ((hs.flags w hw).1 ▸ hanon)
  · rw [(hs.flags w hw).2] at ho
    exact ⟨(harea.backing o ho).1, hs.aligned w hw (by rw [ho]; rfl)⟩

/-- What a call makes of an area stands for it, if the parts keep an address of every page that still
shows the object. -/
theorem Stands.of_piece {g : Change} {ps : List VmArea} (hpiece : Piece g v v.start v.top ps)
    (hsame : ∀ a i j, g a i = some j → j.flags = i.flags ∧ j.backing = i.backing)
    (haligned : ∀ w ∈ ps, v.backing.isSome → pageSize ∣ w.start)
    (hkept : ∀ o p i, v.backing = some o → v.Touches p →
      st.lenderAt r p = some (some (.object o i)) → ∃ a, v.start ≤ a ∧ a < v.top ∧
        p * pageSize ≤ a ∧ a < (p + 1) * pageSize ∧ g a (v.infoAt a) ≠ none) :
    st.Stands r v ps := by
  refine ⟨fun w hw => ?_, fun w hw p htouch => ?_, fun o p i hback htouch hl => ?_, haligned⟩
  · have hproper := (hpiece.ok.proper w hw).1
    obtain ⟨-, -, hg⟩ := (hpiece.agree w.start _).mp ⟨w, hw, Nat.le_refl _, hproper, rfl⟩
    exact hsame _ _ _ hg
  · exact ⟨Nat.lt_of_le_of_lt (hpiece.above w hw) htouch.1,
      Nat.lt_of_lt_of_le htouch.2 (hpiece.ok.proper w hw).2⟩
  obtain ⟨a, hlow, hhigh, hpa, hap, hg⟩ := hkept o p i hback htouch hl
  obtain ⟨j, hj⟩ := Option.ne_none_iff_exists'.mp hg
  obtain ⟨w, hw, hwa, haw, -⟩ := (hpiece.agree a j).mpr ⟨hlow, hhigh, hj⟩
  exact ⟨w, hw, Nat.lt_of_le_of_lt hwa hap, Nat.lt_of_le_of_lt hpa haw⟩

/-- An area in the place of itself. -/
theorem areas_same {pre post : List VmArea} (hx : unit u = some x)
    (hlist : x.vmas = pre ++ v :: post) :
    update unit u (some { x with vmas := pre ++ (([] ++ [v]) ++ post) }) = unit := by
  have hsame : ({ x with vmas := pre ++ (([] ++ [v]) ++ post) } : VmUnit) = x := by
    show ({ x with vmas := pre ++ (v :: post) } : VmUnit) = x
    rw [← hlist]
  rw [hsame, ← hx]
  exact update_eq_self u unit

/-! ## munmap -/

/-- The pages of a range are present, where they have entries. -/
def AllPresent (st : VmSt) (r base stop : Nat) : Prop :=
  ∀ p e, base < (p + 1) * pageSize → p * pageSize < stop → st.leafAt r p = some e → e.present = true

/-- `munmap` of what an area has of the range: afterwards no page of an object is shown there. -/
theorem unmapArea_sound (h : st.Sound unit) (hx : unit u = some x) (hv : v ∈ x.vmas)
    (hproper : v.top ≤ userEnd) (hbase : pageSize ∣ base)
    (hpresent : st.AllPresent x.realm base stop) :
    let st1 := st.unmapRange x.realm (max v.start base) (mapAnonymous v.flags)
      (pageSteps (max v.start base) (min v.top stop))
    st1.Sound unit ∧ ∀ o p i, v.backing = some o → v.Touches p → base < (p + 1) * pageSize →
      p * pageSize < stop → st1.lenderAt x.realm p ≠ some (some (.object o i)) := by
  have harea := h.mapped.area u x hx v hv
  refine ⟨unmapRange_sound h fun hanon j hj l hl => ?_, fun o p i hback htouch hlow hhigh => ?_⟩
  · refine h.mapped.memory u x hx _ l (.inl ⟨v, hv, hanon, ?_⟩) hl
    exact touches_of_step (Nat.le_trans (Nat.min_le_left _ _) hproper) (Nat.le_max_left _ _)
      (Nat.min_le_left _ _) hj
  have hflags : mapAnonymous v.flags = false := by
    cases hf : mapAnonymous v.flags with
    | false => rfl
    | true =>
      rw [harea.anonymous hf] at hback
      cases hback
  rw [hflags]
  have hfirst : pageSize ∣ max v.start base := by
    rcases Nat.le_total v.start base with hle | hle
    · rw [Nat.max_eq_right hle]
      exact hbase
    · rw [Nat.max_eq_left hle]
      exact (harea.backing o hback).2
  obtain ⟨j, hj, rfl⟩ := exists_step hfirst (Nat.le_trans (Nat.min_le_left v.top stop) hproper)
    (Nat.max_lt.mpr ⟨htouch.1, hlow⟩) (Nat.lt_min.mpr ⟨htouch.2, hhigh⟩)
  refine unmapRange_gone h.frames (fun k hk e he => ?_) hj
  have hin := lt_of_lt_pageSteps hk
  have hlt : max v.start base + k * pageSize < userEnd := by omega
  have hdiv := Nat.div_mul_le_self (max v.start base + k * pageSize) pageSize
  have hmod := Nat.lt_div_mul_add (a := max v.start base + k * pageSize) (b := pageSize) (by decide)
  rw [pageOf_eq hlt] at he
  refine hpresent _ e ?_ ?_ he
  · rw [Nat.succ_mul]
    omega
  · exact Nat.lt_of_le_of_lt hdiv (Nat.lt_of_lt_of_le hin (Nat.min_le_right _ _))

/-- The parts start where the area or where the rest of it starts. -/
theorem munmapArea_starts (st : VmSt) (r : Nat) (split : Bool) :
    ∀ w ∈ (st.munmapArea r base stop v split).2.2 ++ (st.munmapArea r base stop v split).2.1,
      w.start = v.start ∨ w.start = stop := by
  unfold VmSt.munmapArea
  split_ifs <;> simp [VmArea.part]

theorem munmapArea_sound (h : st.Sound unit) (hx : unit u = some x) {pre post : List VmArea}
    (hlist : x.vmas = pre ++ v :: post) (hok : AreasOk [v]) (hle : base ≤ stop)
    (hbase : pageSize ∣ base) (hstop : pageSize ∣ stop)
    (hpresent : st.AllPresent x.realm base stop) (hlow : st.CountsLow (n + 1)) {split : Bool}
    (hsplit : split ↔ v.start < base ∧ stop < v.end) :
    let y := st.munmapArea x.realm base stop v split
    y.1.Sound (update unit u
        (some { x with vmas := pre ++ ((y.2.2 ++ y.2.1) ++ post) })) ∧
      y.1.CountsLow n ∧ y.1.AllPresent x.realm base stop := by
  have hv : v ∈ x.vmas := hlist ▸ mem_append_right _ mem_cons_self
  have hend : v.end = v.top := hok.end_eq (mem_singleton.mpr rfl)
  obtain ⟨hproper, hbound⟩ := areasOk_single.mp hok
  have harea := h.mapped.area u x hx v hv
  have hpiece := munmapArea_piece st hproper (Nat.lt_of_le_of_lt hbound (by decide)) hle x.realm hsplit
  have hstart : ∀ w ∈ (st.munmapArea x.realm base stop v split).2.2 ++
      (st.munmapArea x.realm base stop v split).2.1, v.backing.isSome → pageSize ∣ w.start := by
    intro w hw hsome
    obtain ⟨o, ho⟩ := Option.isSome_iff_exists.mp hsome
    rcases munmapArea_starts st x.realm split w hw with hw | hw
    · rw [hw]
      exact (harea.backing o ho).2
    · exact hw ▸ hstop
  unfold VmSt.munmapArea at hpiece hstart ⊢
  dsimp only at hpiece hstart ⊢
  rw [hend] at hpiece hstart ⊢
  by_cases hmiss : v.start ≥ stop ∨ v.top ≤ base
  · simp only [if_pos hmiss]
    rw [areas_same hx hlist]
    exact ⟨h, hlow.mono (Nat.le_succ n), hpresent⟩
  simp only [if_neg hmiss] at hpiece hstart ⊢
  obtain ⟨hst1, hgone⟩ := unmapArea_sound h hx hv hbound hbase hpresent
  generalize hcut : st.unmapRange _ _ _ _ = st1 at *
  have hlow1 : st1.CountsLow (n + 1) := by
    intro o b hb
    rw [← hcut, unmapRange_obj] at hb
    exact hlow o b hb
  have hpresent1 : st1.AllPresent x.realm base stop :=
    fun p e hp hp' he => hpresent p e hp hp' (leafAt_unmapRange (hcut ▸ he))
  -- a page that still shows an object lies before the range or behind it
  have hstands : ∀ {st2 : VmSt} {ps : List VmArea}, Piece (unmapped base stop) v v.start v.top ps →
      (∀ w ∈ ps, v.backing.isSome → pageSize ∣ w.start) → st2.space = st1.space →
      st2.Stands x.realm v ps := by
    intro st2 ps hpiece hstart hspace
    refine .of_piece hpiece (fun a i j hg => ?_) hstart fun o p i hback htouch hl => ?_
    · unfold unmapped at hg
      split_ifs at hg
      cases hg
      exact ⟨rfl, rfl⟩
    rw [lenderAt, leafAt, hspace] at hl
    have hout : (p + 1) * pageSize ≤ base ∨ stop ≤ p * pageSize := by
      by_contra hin
      exact hgone o p i hback htouch (by omega) (by omega) hl
    have hpage : p * pageSize < (p + 1) * pageSize := Nat.mul_lt_mul_of_pos_right (Nat.lt_succ_self p)
      (by decide)
    have hin : max v.start (p * pageSize) < (p + 1) * pageSize := Nat.max_lt.mpr ⟨htouch.1, hpage⟩
    refine ⟨max v.start (p * pageSize), Nat.le_max_left _ _, Nat.max_lt.mpr ⟨hproper, htouch.2⟩,
      Nat.le_max_right _ _, hin, ?_⟩
    unfold unmapped
    rw [if_neg (by omega)]
    exact Option.some_ne_none _
  split_ifs at hpiece hstart ⊢ with hall hanon hmid
  all_goals
    have hslack0 : ∀ o ∈ v.backing, st1.Slack unit o 0 := fun o _ => hst1.mapped.slack
  · exact ⟨⟨hst1.frames, (hstands hpiece hstart rfl).replace hst1.mapped hx hlist hslack0⟩,
      hlow1.mono (Nat.le_succ n), hpresent1⟩
  · -- the whole area goes: one area less than the count says
    have hmapped := (hstands hpiece hstart rfl).replace hst1.mapped hx hlist hslack0
    have hslack : ∀ o ∈ v.backing, st1.Slack (update unit u
        (some { x with vmas := pre ++ ([] ++ post) })) o 1 := by
      intro o ho b hb
      have hle := (hst1.mapped.counted o b hb).1
      have hupd := areasOf_update (hst1.mapped.live u x hx).1 hx
        { x with vmas := pre ++ ([] ++ post) } o
      rw [hlist] at hupd
      have hback : v.backing = some o := ho
      simp only [countBacking, countP_append, countP_cons, countP_nil, hback,
        decide_true, if_true] at hupd
      omega
    obtain ⟨hdrop, hlow2⟩ := dropBacking_sound ⟨hst1.frames, hmapped⟩ hslack
    refine ⟨hdrop, (hlow2 _ hlow1).mono (Nat.le_succ n), fun p e hp hp' he => ?_⟩
    rw [leafAt, SameTables.allows.dropBacking.space] at he
    exact hpresent1 p e hp hp' he
  · -- a part before the range, and a new area behind it
    obtain ⟨hshare, hlow2, hslack⟩ := shareBacking_sound hst1 hlow1 harea.anonymous
    have hspace : (st1.shareBacking v).space = st1.space := SameTables.allows.shareBacking.space
    refine ⟨⟨hshare.frames, (hstands hpiece hstart hspace).replace hshare.mapped hx hlist
      (hslack 0 hslack0)⟩, hlow2, fun p e hp hp' he => ?_⟩
    rw [leafAt, hspace] at he
    exact hpresent1 p e hp hp' he
  all_goals
    exact ⟨⟨hst1.frames, (hstands hpiece hstart rfl).replace hst1.mapped hx hlist hslack0⟩,
      hlow1.mono (Nat.le_succ n), hpresent1⟩

/-- The parts in the order of the loop, and in the order of the new list. -/
theorem perm_parts {new kept new' kept' vs : List VmArea} (h : vs.Perm (new' ++ kept')) :
    ((new ++ kept) ++ vs).Perm ((new' ++ new) ++ (kept ++ kept')) := by
  refine (h.append_left (new ++ kept)).trans ?_
  have hswap : ((new ++ kept) ++ new').Perm (new' ++ (new ++ kept)) := perm_append_comm
  simpa only [append_assoc] using hswap.append_right kept'

/-- The loop of `munmap`, with the areas that are done in front of the others. -/
theorem munmapLoop_sound (h : st.Sound unit) (hx : unit u = some x) (hr : x.realm = r)
    {xs : List (VmArea × Bool)} {done : List VmArea} (hlist : x.vmas = done ++ xs.map Prod.fst)
    (hok : AreasOk (xs.map Prod.fst)) (hle : base ≤ stop) (hbase : pageSize ∣ base)
    (hstop : pageSize ∣ stop) (hpresent : st.AllPresent r base stop)
    (hlow : st.CountsLow (n + xs.length))
    (hsplit : ∀ y ∈ xs, y.2 ↔ y.1.start < base ∧ stop < y.1.end) :
    ∃ vs, (munmapLoop r base stop xs st).1.Sound (update unit u
        (some { x with vmas := done ++ vs })) ∧
      vs.Perm ((munmapLoop r base stop xs st).2.2 ++ (munmapLoop r base stop xs st).2.1) := by
  induction xs generalizing st unit x done with
  | nil =>
    refine ⟨[], ?_, List.Perm.refl _⟩
    have hsame : ({ x with vmas := done ++ [] } : VmUnit) = x := by
      rw [map_nil] at hlist
      rw [← hlist]
    rw [hsame, ← hx, update_eq_self]
    exact h
  | cons y xs ih =>
    obtain ⟨hy, hxs, -⟩ := Span.ok_cons.mp hok
    subst hr
    obtain ⟨hstep, hlow', hpresent'⟩ := munmapArea_sound h hx hlist (areasOk_single.mpr hy) hle hbase
      hstop hpresent hlow (hsplit y mem_cons_self)
    rw [munmapLoop]
    generalize st.munmapArea x.realm base stop y.1 y.2 = z at *
    have hlist' : done ++ ((z.2.2 ++ z.2.1) ++ xs.map Prod.fst) =
        (done ++ (z.2.2 ++ z.2.1)) ++ xs.map Prod.fst := (append_assoc _ _ _).symm
    obtain ⟨vs, hrest, hperm⟩ := ih hstep (update_self _ _ _) rfl hlist' hxs hpresent' hlow'
      fun w hw => hsplit w (mem_cons_of_mem y hw)
    rw [update_idem] at hrest
    refine ⟨(z.2.2 ++ z.2.1) ++ vs, ?_, perm_parts hperm⟩
    rw [← append_assoc]
    exact hrest

/-- The result of a loop over the areas of a unit is stored. -/
theorem Sound.storeAreas (h : st.Sound (update st.unit u (some { x with vmas := vs })))
    (hx : st.unit u = some x) {ws : List VmArea} (hperm : vs.Perm ws) :
    (st.setUnit u { x with vmas := ws }).Sound (st.setUnit u { x with vmas := ws }).unit := by
  refine Sound.store ⟨h.frames, ?_⟩ fun kind i => ?_
  · have hmapped := h.mapped.perm (update_self _ _ _) hperm
    rw [update_idem] at hmapped
    exact hmapped
  · rw [hx]
    exact runAt_setAreas (x := x) ws x.heapEnd kind i

theorem munmap_sound (h : st.Sound st.unit) (htidy : st.Tidy) {addr length : Nat}
    (hfits : alignDown addr + alignUp length < 2 ^ 64) (hpresent : ∀ x ∈ st.unit u,
      st.AllPresent x.realm (alignDown addr) (alignDown addr + alignUp length))
    (hlow : ∀ x ∈ st.unit u, st.CountsLow x.vmas.length) {vmaOk : Bool} :
    (st.munmap u addr length vmaOk).1.Sound (st.munmap u addr length vmaOk).1.unit := by
  unfold VmSt.munmap
  split
  · exact h
  rename_i x hx
  dsimp only
  rw [Nat.mod_eq_of_lt hfits]
  split_ifs
  all_goals first | exact h | skip
  have hle : alignDown addr ≤ alignDown addr + alignUp length := Nat.le_add_right _ _
  have hareas := htidy.units u x hx
  obtain ⟨hmap, hsplit⟩ := markSplit_spec hareas (by decide) hle
  generalize markSplit _ _ _ = ms at *
  have hlen : ms.length = x.vmas.length := by rw [← length_map Prod.fst, hmap]
  have hcounts : st.CountsLow (0 + ms.length) := by
    rw [Nat.zero_add, hlen]
    exact hlow x hx
  have hlist : x.vmas = [] ++ ms.map Prod.fst := hmap.symm
  obtain ⟨vs, hsound, hperm⟩ := munmapLoop_sound h hx rfl hlist (by rw [hmap]; exact hareas) hle
    alignDown_dvd (Nat.dvd_add alignDown_dvd (alignUp_dvd length)) (hpresent x hx) hcounts
    hsplit
  have hunit := munmapLoop_unit st x.realm (alignDown addr) (alignDown addr + alignUp length) ms
  rw [← hunit] at hsound hx
  exact Sound.storeAreas hsound hx hperm

/-! ## mprotect -/

/-- `mprotect` of pages: the frames stay where they are. -/
theorem protectPages_sound (h : st.Sound unit) (r prot n a : Nat) :
    (protectPages r prot n a st).Sound unit ∧ (protectPages r prot n a st).obj = st.obj := by
  induction n generalizing st a with
  | zero => exact ⟨h, rfl⟩
  | succ n ih =>
    rw [protectPages]
    split_ifs with hphys
    · exact ih h _
    have hremap : (st.mapPage r a (st.physicalAddressIgnorePresent r a) (protWrite prot) (prot ≠ 0)
        (st.originOf r a)).Sound unit := by
      refine ⟨h.frames.remapPage hphys, h.mapped.shrink (fun r' hr => ?_) (fun r' p l hl => ?_)
        (.of_obj (mapPage_obj st)) mapPage_nextObj⟩
      · rw [mapPage_space]
        exact hr
      · obtain ⟨e, he, hl⟩ := lenderAt_eq_some.mp hl
        obtain ⟨e', he', horigin, -⟩ := leafAt_remapPage h.frames hphys he
        exact lenderAt_eq_some.mpr ⟨e', he', by rw [horigin]; exact hl⟩
    obtain ⟨hrest, hobj⟩ := ih hremap (a + pageSize)
    exact ⟨hrest, hobj.trans (mapPage_obj _)⟩

/-- The part with the new protection and the part before it: one more mapping for one more area. -/
theorem protectHead_shares (h : st.Sound unit) (hlow : st.CountsLow (n + 1))
    (hanon : mapAnonymous v.flags → v.backing = none) (prot a b : Nat) (tails : List VmArea)
    (hslack : ∀ o ∈ v.backing, st.Slack unit o tails.length) {room : Nat} (hroom : 1 ≤ room) :
    let y := protectArea.protectHead st prot v a b tails room
    y.st.Sound unit ∧ y.st.CountsLow n ∧
      ∀ o ∈ v.backing, y.st.Slack unit o ((y.new ++ y.kept).length - 1) := by
  unfold protectArea.protectHead
  split_ifs with hhead hnone
  · omega
  · obtain ⟨hshare, hlow', hslack'⟩ := shareBacking_sound h hlow hanon
    refine ⟨hshare, hlow', ?_⟩
    simpa using hslack' _ hslack
  · refine ⟨h, hlow.mono (Nat.le_succ n), ?_⟩
    simpa using hslack

/-- The parts start where the area, the range or the rest of the area starts. -/
theorem protectArea_starts (st : VmSt) (r prot room : Nat) :
    ∀ w ∈ (st.protectArea r base stop prot v room).new ++
      (st.protectArea r base stop prot v room).kept,
      w.start = v.start ∨ w.start = base ∨ w.start = stop := by
  unfold VmSt.protectArea protectArea.protectHead
  dsimp only
  split_ifs <;> simp [VmArea.part] <;> omega

section

variable (h : st.Sound unit) (hx : unit u = some x) (hlt : base < stop) (hbase : pageSize ∣ base)
  (hstop : pageSize ∣ stop) (r prot : Nat) {room : Nat}

include h hx hlt hbase hstop

theorem protectArea_sound {pre post : List VmArea} (hlist : x.vmas = pre ++ v :: post)
    (hok : AreasOk [v]) (hlow : st.CountsLow (n + 2)) (hroom : 2 ≤ room) :
    let y := st.protectArea r base stop prot v room
    y.st.Sound (update unit u
        (some { x with vmas := pre ++ ((y.new ++ y.kept) ++ post) })) ∧ y.st.CountsLow n := by
  intro y
  have hv : v ∈ x.vmas := hlist ▸ mem_append_right _ mem_cons_self
  obtain ⟨hproper, hbound⟩ := areasOk_single.mp hok
  have harea := h.mapped.area u x hx v hv
  -- the parts stand for the area, whatever the state: nothing is cut out
  have hstands : ∀ st2 : VmSt, st2.Stands x.realm v (y.new ++ y.kept) := by
    intro st2
    obtain ⟨hpiece, -, -⟩ := protectArea_piece st hproper (Nat.lt_of_le_of_lt hbound (by decide)) hlt r
      prot hroom
    refine .of_piece hpiece (fun a i j hg => ?_) (fun w hw hsome => ?_)
      fun o p i hback htouch _ => ?_
    · cases hg
      split_ifs <;> exact ⟨rfl, rfl⟩
    · obtain ⟨o, ho⟩ := Option.isSome_iff_exists.mp hsome
      rcases protectArea_starts st r prot room w hw with hw | hw | hw
      · rw [hw]
        exact (harea.backing o ho).2
      · exact hw ▸ hbase
      · exact hw ▸ hstop
    · have hpage : p * pageSize < (p + 1) * pageSize :=
        Nat.mul_lt_mul_of_pos_right (Nat.lt_succ_self p) (by decide)
      exact ⟨max v.start (p * pageSize), Nat.le_max_left _ _, Nat.max_lt.mpr ⟨hproper, htouch.2⟩,
        Nat.le_max_right _ _, Nat.max_lt.mpr ⟨htouch.1, hpage⟩, Option.some_ne_none _⟩
  suffices hcounts : y.st.Sound unit ∧ y.st.CountsLow n ∧
      ∀ o ∈ v.backing, y.st.Slack unit o ((y.new ++ y.kept).length - 1) by
    obtain ⟨hst, hlow', hslack⟩ := hcounts
    exact ⟨⟨hst.frames, (hstands _).replace hst.mapped hx hlist hslack⟩, hlow'⟩
  simp only [y, VmSt.protectArea]
  obtain ⟨hst1, hobj⟩ := protectPages_sound h r prot
    (pageSteps (max v.start base) (min v.end stop)) (max v.start base)
  generalize protectPages _ _ _ _ st = st1 at *
  have hlow1 : st1.CountsLow (n + 2) := by
    intro o b hb
    rw [hobj] at hb
    exact hlow o b hb
  have hslack0 : ∀ o ∈ v.backing, st1.Slack unit o 0 := fun o _ => hst1.mapped.slack
  split_ifs with hmiss htail hnone
  · exact ⟨h, hlow.mono (by omega), fun o _ => h.mapped.slack⟩
  · omega
  · -- a tail with the old protection
    obtain ⟨hshare, hlow2, hslack⟩ := shareBacking_sound (n := n + 1) hst1 hlow1 harea.anonymous
    exact protectHead_shares hshare hlow2 harea.anonymous _ _ _ [_] (hslack 0 hslack0)
      (show 1 ≤ room - 1 by omega)
  · exact protectHead_shares hst1 (hlow1.mono (Nat.le_succ (n + 1))) harea.anonymous _ _ _ [] hslack0
      (show 1 ≤ room by omega)

/-- The loop of `mprotect`, with the areas that are done in front of the others. -/
theorem protectLoop_sound {vs done : List VmArea} (hlist : x.vmas = done ++ vs) (hok : AreasOk vs)
    (hlow : st.CountsLow (n + 2 * vs.length)) (hroom : 2 * vs.length ≤ room) :
    ∃ ws, (protectLoop r base stop prot vs room st).1.Sound (update unit u
        (some { x with vmas := done ++ ws })) ∧
      ws.Perm ((protectLoop r base stop prot vs room st).2.2.1 ++
        (protectLoop r base stop prot vs room st).2.1) := by
  induction vs generalizing st unit x done room with
  | nil =>
    refine ⟨[], ?_, List.Perm.refl _⟩
    have hsame : ({ x with vmas := done ++ [] } : VmUnit) = x := by rw [← hlist]
    rw [hsame, ← hx, update_eq_self]
    exact h
  | cons v vs ih =>
    obtain ⟨hv, hvs, -⟩ := Span.ok_cons.mp hok
    rw [length_cons] at hlow hroom
    have hlow' : st.CountsLow (n + 2 * vs.length + 2) := hlow.mono (by omega)
    obtain ⟨hstep, hlow1⟩ := protectArea_sound h hx hlt hbase hstop r prot hlist
      (areasOk_single.mpr hv) hlow' (show 2 ≤ room by omega)
    obtain ⟨-, hok1, hleft⟩ :=
      protectArea_piece st hv.1 (Nat.lt_of_le_of_lt hv.2 (by decide)) hlt r prot
        (show 2 ≤ room by omega)
    rw [protectLoop]
    rw [if_pos hok1]
    generalize st.protectArea r base stop prot v room = z at *
    have hlist' : done ++ ((z.new ++ z.kept) ++ vs) = (done ++ (z.new ++ z.kept)) ++ vs :=
      (append_assoc _ _ _).symm
    obtain ⟨ws, hrest, hperm⟩ := ih hstep (update_self _ _ _) hlist' hvs hlow1
      (show 2 * vs.length ≤ z.room by omega)
    rw [update_idem] at hrest
    refine ⟨(z.new ++ z.kept) ++ ws, ?_, perm_parts hperm⟩
    rw [← append_assoc]
    exact hrest

end

theorem mprotect_sound (h : st.Sound st.unit) (htidy : st.Tidy) {addr length room : Nat}
    (hfits : length = 0 ∨ 0 < alignUp length ∧ alignDown addr + alignUp length < 2 ^ 64 ∧
      ∀ x ∈ st.unit u, 2 * x.vmas.length ≤ room)
    (hlow : ∀ x ∈ st.unit u, st.CountsLow (2 * x.vmas.length)) {prot : Nat} :
    (st.mprotect u addr length prot room).1.Sound (st.mprotect u addr length prot room).1.unit := by
  unfold VmSt.mprotect
  split
  · exact h
  rename_i x hx
  by_cases hlength : length = 0
  · simp only [hlength, if_true]
    split_ifs <;> exact h
  obtain ⟨hlen, hfits, hroom⟩ := hfits.resolve_left hlength
  dsimp only
  rw [Nat.mod_eq_of_lt hfits]
  split_ifs
  all_goals first | exact h | skip
  all_goals
    have hcounts : st.CountsLow (0 + 2 * x.vmas.length) := by
      rw [Nat.zero_add]
      exact hlow x hx
    have hlist : x.vmas = [] ++ x.vmas := rfl
    obtain ⟨ws, hsound, hperm⟩ := protectLoop_sound h hx
      (show alignDown addr < alignDown addr + alignUp length by omega) alignDown_dvd
      (Nat.dvd_add alignDown_dvd (alignUp_dvd length)) x.realm prot hlist (htidy.units u x hx) hcounts
      (hroom x hx)
    have hunit := protectLoop_unit st x.realm (alignDown addr) (alignDown addr + alignUp length) prot
      x.vmas room
    rw [← hunit] at hsound hx
    exact Sound.storeAreas hsound hx hperm

end VmSt

end Vespera.Memory
