import Vespera.Memory.FrameUse

/-! # The owners of frames

A frame that is in use has one owner: the page table that it is a table of, the page of anonymous
memory or heap that it was taken for, the object whose page it is, the unit whose stack or
thread-local block it belongs to, the kernel, or the trampoline. All other pages that show it have
it on loan, and their entries say from whom.

`Frames` is this discipline as an invariant: owners are unique, what they own is not free, what a
page has on loan is what the lender owns, and no frame was given back twice. The lemmas here say
what keeps it:

* `Frames.request`: a frame from the allocator is loose, that is, without an owner;
* `Frames.mapPage`: a loose frame may be mapped as memory, an owned one on loan;
* `Frames.unmapPage`: the tables that become empty are given back, each of them once;
* `Frames.freePage`: a loose frame may be given back;
* `Frames.cutObject`: the pages of an object may be given back when no page has one on loan.
-/

namespace Vespera.Memory

open Function List Lib PageTable

/-! ## Owners -/

/-- The place that owns the frame of a page; `none` for memory that the page owns itself. -/
def Origin.lender : Origin → Option Site
  | .fresh => none
  | .anon => none
  | .trampoline => some .trampoline
  | .run u kind i => some (.run u kind i)
  | .object _ _ o i => some (.object o i)

@[simp] theorem Origin.lender_written {o : Origin} : o.written.lender = o.lender := by
  cases o <;> rfl

/-- The realm whose page table a place belongs to. -/
def Site.space : Site → Option Nat
  | .pml4 r => some r
  | .table r _ _ => some r
  | .leaf r _ => some r
  | _ => none

/-- What pages have on loan belongs to no page table. -/
theorem Origin.space_lender {o : Origin} {s : Site} (h : o.lender = some s) : s.space = none := by
  cases o <;> cases h <;> rfl

namespace PageTable

variable {pt : PageTable}

/-- The tables above every entry are there. -/
def Walkable (pt : PageTable) : Prop :=
  ∀ p e, pt.leaf p = some e → (pt.table 3 (p / 512 ^ 3)).isSome ∧
    (pt.table 2 (p / 512 ^ 2)).isSome ∧ (pt.table 1 (p / 512)).isSome

theorem Walkable.table (h : pt.Walkable) {p l : Nat} {e : Pte} (he : pt.leaf p = some e)
    (hpos : 0 < l) (hl : l ≤ 3) : (pt.table l (p / 512 ^ l)).isSome := by
  obtain ⟨h3, h2, h1⟩ := h p e he
  obtain rfl | rfl | rfl : l = 1 ∨ l = 2 ∨ l = 3 := by omega
  exacts [by simpa using h1, h2, h3]

theorem Walkable.entry (h : pt.Walkable) {va : Nat} {e : Pte} (he : pt.leaf (pageOf va) = some e) :
    pt.entry va = some e := by
  exact (if_pos (h _ e he)).trans he

/-- The frame that a place of a page table owns. -/
def ownerIn (pt : PageTable) : Site → Option Nat
  | .pml4 _ => some pt.pml4
  | .table _ level key => pt.table level key
  | .leaf _ p => (pt.leaf p).bind fun e => if e.origin.lender = none then some e.frame else none
  | _ => none

theorem withTable_isSome {level key t : Nat} {l k : Nat} (h : (pt.table l k).isSome) :
    ((pt.withTable level key (some t)).table l k).isSome := by
  by_cases hl : l = level
  · subst hl
    by_cases hk : k = key
    · simp [hk]
    · simpa [hk] using h
  · simpa [hl] using h

theorem ownerIn_leaf {r p f : Nat} : pt.ownerIn (.leaf r p) = some f ↔
      ∃ e, pt.leaf p = some e ∧ e.origin.lender = none ∧ e.frame = f := by
  simp [ownerIn, Option.bind_eq_some_iff]

end PageTable

namespace VmSt

/-- The frame that a place owns. -/
def ownerAt (st : VmSt) (s : Site) : Option Nat :=
  match s.space with
  | some r => (st.space r).bind fun pt => pt.ownerIn s
  | none => st.frameAt s

/-- Every frame in use has one owner and is not free; what is on loan is owned by its lender; no
frame was given back twice. -/
structure Frames (st : VmSt) : Prop where
  held : ∀ s f, st.ownerAt s = some f → frameOf f = f ∧ ¬ st.phys.Free f
  unique : ∀ s s' f, st.ownerAt s = some f → st.ownerAt s' = some f → s = s'
  lent : ∀ r p e s, st.leafAt r p = some e → e.origin.lender = some s → st.ownerAt s = some e.frame
  walk : ∀ r pt, st.space r = some pt → pt.Walkable
  once : st.phys.freedTwice = false

/-- A frame that is out of the allocator and that nobody owns. -/
structure Loose (st : VmSt) (f : Nat) : Prop where
  aligned : frameOf f = f
  taken : ¬ st.phys.Free f
  unowned : ∀ s, st.ownerAt s ≠ some f

variable {st st' : VmSt} {ph ph' : Phys} {pt pt' : PageTable} {r f p : Nat} {s : Site} {e : Pte}
  {level page va : Nat} {origin : Origin}

theorem ownerAt_leaf : st.ownerAt (.leaf r p) = some f ↔
    ∃ e, st.leafAt r p = some e ∧ e.origin.lender = none ∧ e.frame = f := by
  show ((st.space r).bind fun pt => pt.ownerIn (.leaf r p)) = some f ↔ _
  cases hpt : st.space r with
  | none => simp [leafAt, hpt]
  | some pt => simpa [leafAt, hpt] using ownerIn_leaf (r := r)

theorem ownerAt_of_space (hpt : st.space r = some pt) (hs : s.space = some r) :
    st.ownerAt s = pt.ownerIn s := by
  simp [ownerAt, hs, hpt]

/-- Outside of the page tables, what is owned is what is in use. -/
theorem ownerAt_of_space_none (hs : s.space = none) : st.ownerAt s = st.frameAt s := by
  simp [ownerAt, hs]

theorem ownerAt_setTable :
    (st.setTable r ph pt).ownerAt s = if s.space = some r then pt.ownerIn s else st.ownerAt s := by
  cases hs : s.space with
  | none =>
    rw [if_neg (by simp), ownerAt_of_space_none hs, ownerAt_of_space_none hs]
    cases s <;> first | rfl | cases hs
  | some r' =>
    by_cases hr : r' = r
    · subst hr
      rw [if_pos rfl]
      exact ownerAt_of_space (by simp) hs
    · rw [if_neg (by simpa using hr)]
      simp [ownerAt, hs, hr]

/-- The frames that are mapped are not free. -/
theorem Frames.leaf_held (h : st.Frames) (he : st.leafAt r p = some e) :
    frameOf e.frame = e.frame ∧ ¬ st.phys.Free e.frame := by
  cases hl : e.origin.lender with
  | none => exact h.held (.leaf r p) e.frame (ownerAt_leaf.mpr ⟨e, he, hl, rfl⟩)
  | some s => exact h.held s e.frame (h.lent r p e s he hl)

/-! ## Changes of the state -/

/-- Frames may be adopted: a change that frees nothing keeps the discipline if every owner had its
frame before or is the only one to have it now. -/
theorem Frames.adopt (h : st.Frames) (new : Site → Nat → Prop)
    (hown : ∀ s f, st'.ownerAt s = some f → st.ownerAt s = some f ∨ new s f)
    (hnew : ∀ s f, new s f → frameOf f = f ∧ ¬ st.phys.Free f ∧
      ∀ s', st.ownerAt s' = some f ∨ new s' f → s' = s)
    (hfree : ∀ f, st'.phys.Free f → st.phys.Free f)
    (hlent : ∀ r p e s, st'.leafAt r p = some e → e.origin.lender = some s →
      st'.ownerAt s = some e.frame) (hwalk : ∀ r pt, st'.space r = some pt → pt.Walkable)
    (honce : st'.phys.freedTwice = st.phys.freedTwice) : st'.Frames := by
  refine ⟨fun s f hs => ?_, fun s s' f hs hs' => ?_, hlent, hwalk, honce.trans h.once⟩
  · rcases hown s f hs with hold | hn
    · exact ⟨(h.held s f hold).1, fun hf => (h.held s f hold).2 (hfree f hf)⟩
    · exact ⟨(hnew s f hn).1, fun hf => (hnew s f hn).2.1 (hfree f hf)⟩
  rcases hown s f hs with hold | hn
  · rcases hown s' f hs' with hold' | hn'
    · exact h.unique s s' f hold hold'
    · exact (hnew s' f hn').2.2 s (.inl hold)
  · exact ((hnew s f hn).2.2 s' (hown s' f hs')).symm

/-- A loose frame may be adopted by one place. -/
theorem Loose.adopts {new : Site → Prop} (h : st.Loose f) (honly : ∀ s', new s' → s' = s) :
    frameOf f = f ∧ ¬ st.phys.Free f ∧ ∀ s', st.ownerAt s' = some f ∨ new s' → s' = s :=
  ⟨h.aligned, h.taken, fun s' hs' => hs'.elim (fun hold => absurd hold (h.unowned s')) (honly s')⟩

/-- Owners that go away do no harm, if nobody has their frames on loan. -/
theorem Frames.shrink (h : st.Frames) (hown : ∀ s f, st'.ownerAt s = some f → st.ownerAt s = some f)
    (hfree : ∀ s f, st'.ownerAt s = some f → ¬ st'.phys.Free f)
    (hlent : ∀ r p e s, st'.leafAt r p = some e → e.origin.lender = some s →
      st'.ownerAt s = some e.frame) (hwalk : ∀ r pt, st'.space r = some pt → pt.Walkable)
    (honce : st'.phys.freedTwice = false) : st'.Frames :=
  ⟨fun s f hs => ⟨(h.held s f (hown s f hs)).1, hfree s f hs⟩,
    fun s s' f hs hs' => h.unique s s' f (hown s f hs) (hown s' f hs'), hlent, hwalk, honce⟩

/-- A change of the memory and the allocator that frees nothing. -/
theorem Frames.setPhys (h : st.Frames) (hfree : ∀ f, ph.Free f → st.phys.Free f)
    (honce : ph.freedTwice = st.phys.freedTwice) : ({ st with phys := ph } : VmSt).Frames :=
  ⟨fun s f hs => ⟨(h.held s f hs).1, fun hf => (h.held s f hs).2 (hfree f hf)⟩, h.unique, h.lent,
    h.walk, honce.trans h.once⟩

theorem Loose.setPhys (h : st.Loose f) (hfree : ∀ f, ph.Free f → st.phys.Free f) :
    ({ st with phys := ph } : VmSt).Loose f :=
  ⟨h.aligned, fun hf => h.taken (hfree f hf), h.unowned⟩

/-- Frames that come from the allocator are loose. -/
theorem Frames.request (h : st.Frames) (n : Nat) :
    ({ st with phys := (st.phys.requestPages n).1 } : VmSt).Frames ∧
      ((st.phys.requestPages n).2 ≠ 0 →
        frameOf (st.phys.requestPages n).2 = (st.phys.requestPages n).2 ∧
        ∀ i, i < n → ({ st with phys := (st.phys.requestPages n).1 } : VmSt).Loose
          ((st.phys.requestPages n).2 + i * pageSize)) := by
  refine ⟨h.setPhys (fun f hf => st.phys.requestPages_free n hf) rfl, fun hne => ?_⟩
  obtain ⟨haligned, hwas, hnow⟩ := Phys.requestPages_taken hne
  refine ⟨haligned, fun i hi => ⟨frameOf_add_mul haligned, hnow i hi, fun s hs => ?_⟩⟩
  exact (h.held s _ hs).2 (hwas i hi)

theorem Frames.requestPage (h : st.Frames) :
    st.requestPage.1.Frames ∧ (st.requestPage.2 ≠ 0 → st.requestPage.1.Loose st.requestPage.2) := by
  obtain ⟨hframes, hloose⟩ := h.request 1
  refine ⟨hframes, fun hne => ?_⟩
  have := (hloose hne).2 0 Nat.one_pos
  rwa [Nat.zero_mul, Nat.add_zero] at this

/-- A free frame is one with a free index. -/
theorem free_frameOf (ph : Phys) (a : Nat) : ph.Free (frameOf a) ↔ ph.Free a := by
  rw [Phys.Free, Phys.Free, frameOf, Nat.mul_div_cancel _ (by decide)]

theorem freePage_free {a : Nat} (h : (ph.freePage a).Free f) :
    ph.Free f ∨ frameOf f = frameOf a := by
  obtain ⟨hlt, hfree⟩ := h
  rcases Decidable.em (f / pageSize = a / pageSize) with heq | hne
  · exact .inr (by rw [frameOf, frameOf, heq])
  · have hused : (ph.alloc.freePage a).used (f / pageSize) = ph.alloc.used (f / pageSize) := by
      simp [FrameAllocator.freePage_used, hne]
    exact .inl ⟨FrameAllocator.freePage_maxIndex ▸ hlt, hused ▸ hfree⟩

/-- A loose frame may be given back. -/
theorem Frames.freePage (h : st.Frames) {a : Nat} (ha : st.Loose (frameOf a)) :
    (st.freePage a).Frames := by
  have hused : ¬ st.phys.Free a := fun hf => ha.taken ((free_frameOf _ a).mpr hf)
  refine ⟨fun s f hs => ⟨(h.held s f hs).1, fun hf => ?_⟩, h.unique, h.lent, h.walk, ?_⟩
  · rcases freePage_free hf with hold | heq
    · exact (h.held s f hs).2 hold
    · rw [(h.held s f hs).1] at heq
      exact ha.unowned s (heq ▸ hs)
  · show (st.phys.freedTwice || decide (st.phys.Free a)) = false
    simp [h.once, hused]

/-- The other loose frames stay loose. -/
theorem Loose.freePage {a : Nat} (h : st.Loose f) (hne : f ≠ frameOf a) :
    (st.freePage a).Loose f := by
  refine ⟨h.aligned, fun hf => ?_, h.unowned⟩
  rcases freePage_free hf with hold | heq
  · exact h.taken hold
  · exact hne (h.aligned ▸ heq)

/-! ## Mapping -/

/-- The leaf entries after a change of one page table. -/
theorem leafAt_retable (ph : Phys) (pt : PageTable) {r' : Nat}
    (h : (st.setTable r ph' pt').leafAt r' p = some e) :
    (r' = r ∧ pt'.leaf p = some e) ∨ (r' ≠ r ∧ (st.setTable r ph pt).leafAt r' p = some e) := by
  rw [leafAt_setTable] at h
  split_ifs at h with hr
  · exact .inl ⟨hr, h⟩
  · refine .inr ⟨hr, ?_⟩
    rw [leafAt_setTable, if_neg hr]
    exact h

theorem walkable_retable (h : (st.setTable r ph pt).Frames) (hpt' : pt'.Walkable) (r' : Nat)
    (q : PageTable) (hq : (st.setTable r ph' pt').space r' = some q) : q.Walkable := by
  rcases update_eq_some hq with ⟨-, ⟨⟩⟩ | ⟨hr, hold⟩
  · exact hpt'
  · exact h.walk r' q ((update_of_ne hr (some pt) st.space).trans hold)

/-- What is on loan, after a change of one page table. -/
theorem lent_retable (h : (st.setTable r ph pt).Frames)
    (hleaf : ∀ p e s, pt'.leaf p = some e → e.origin.lender = some s →
      (st.setTable r ph pt).ownerAt s = some e.frame)
    (r' p : Nat) (e : Pte) (s : Site) (he : (st.setTable r ph' pt').leafAt r' p = some e)
    (hl : e.origin.lender = some s) : (st.setTable r ph' pt').ownerAt s = some e.frame := by
  have hspace := Origin.space_lender hl
  have hsame : (st.setTable r ph' pt').ownerAt s = (st.setTable r ph pt).ownerAt s := by
    rw [ownerAt_setTable, ownerAt_setTable, hspace, if_neg (by simp), if_neg (by simp)]
  rw [hsame]
  rcases leafAt_retable ph pt he with ⟨-, he⟩ | ⟨-, he⟩
  · exact hleaf p e s he hl
  · exact h.lent r' p e s he hl

theorem leafAt_setTable_self : (st.setTable r ph pt).leafAt r p = pt.leaf p := by
  rw [leafAt_setTable, if_pos rfl]

theorem ownerAt_setTable_self (hs : s.space = some r) :
    (st.setTable r ph pt).ownerAt s = pt.ownerIn s := by
  rw [ownerAt_setTable, if_pos hs]

/-- The owners after a table was added. -/
theorem ownerAt_withTable (ph : Phys) {key t : Nat}
    (hs : (st.setTable r ph' (pt.withTable level key (some t))).ownerAt s = some f) :
    (st.setTable r ph pt).ownerAt s = some f ∨ (s = .table r level key ∧ f = t) := by
  rw [ownerAt_setTable] at hs ⊢
  split_ifs at hs with hspace
  · rw [if_pos hspace]
    cases s with
    | table r' l k =>
      cases hspace
      rcases withTable_table (show (pt.withTable level key (some t)).table l k = some f
        from hs) with hold | ⟨rfl, rfl, ht⟩
      · exact .inl hold
      · exact .inr ⟨rfl, (Option.some.inj ht).symm⟩
    | _ => exact .inl hs
  · rw [if_neg hspace]
    exact .inl hs

/-- A new table in a loose frame. -/
theorem Frames.newTable (h : (st.setTable r ph pt).Frames) {key t : Nat}
    (ht : (st.setTable r ph pt).Loose t) (hfree : ∀ f, ph'.Free f → ph.Free f)
    (honce : ph'.freedTwice = ph.freedTwice) :
    (st.setTable r ph' (pt.withTable level key (some t))).Frames := by
  refine h.adopt (fun s f => s = .table r level key ∧ f = t) (fun s f hs => ownerAt_withTable ph hs)
    ?_ hfree ?_ ?_ honce
  · rintro s f ⟨rfl, rfl⟩
    exact ht.adopts fun s' h => h.1
  · refine lent_retable h fun p e s he hl => h.lent r p e s ?_ hl
    rw [leafAt_setTable_self]
    exact he
  refine walkable_retable h fun p e he => ?_
  have hwalk := h.walk r pt (by simp) p e he
  exact ⟨withTable_isSome hwalk.1, withTable_isSome hwalk.2.1, withTable_isSome hwalk.2.2⟩

/-- What `ensure_table` does to the tables: what is there stays, and the table is there. -/
theorem ensureTable_tables {parent : Nat} {t : Option Nat}
    (hx : ensureTable ph pt level page parent = (ph', pt', t)) :
    (∀ l k, (pt.table l k).isSome → (pt'.table l k).isSome) ∧
      (t.isSome → (pt'.table level (page / 512 ^ level)).isSome) := by
  unfold PageTable.ensureTable at hx
  dsimp only at hx
  cases htable : pt.table level (page / 512 ^ level) with
  | some t =>
    rw [htable] at hx
    cases hx
    exact ⟨fun _ _ h => h, fun _ => by simp [htable]⟩
  | none =>
    rw [htable] at hx
    split_ifs at hx with hnull
    · cases hx
      exact ⟨fun _ _ h => h, fun h => by cases h⟩
    · cases hx
      exact ⟨fun l k hsome => withTable_isSome hsome, fun _ => by simp⟩

/-- `ensure_table` keeps the discipline, and loose frames stay loose. -/
theorem Frames.ensureTable (h : (st.setTable r ph pt).Frames) {parent : Nat}
    {t : Option Nat} (hx : ensureTable ph pt level page parent = (ph', pt', t)) :
    (st.setTable r ph' pt').Frames ∧
      ∀ f, (st.setTable r ph pt).Loose f → (st.setTable r ph' pt').Loose f := by
  have hfree : ∀ f, ph.requestPage.1.Free f → ph.Free f := fun f hf => ph.requestPage_free hf
  unfold PageTable.ensureTable at hx
  dsimp only at hx
  cases htable : pt.table level (page / 512 ^ level) with
  | some t =>
    rw [htable] at hx
    cases hx
    exact ⟨h, fun f hf => hf⟩
  | none =>
    rw [htable] at hx
    split_ifs at hx with hnull
    · cases hx
      exact ⟨h.setPhys hfree rfl, fun f hf => hf.setPhys hfree⟩
    cases hx
    obtain ⟨haligned, hwas, hnow⟩ := Phys.requestPage_taken hnull
    have hstep : (st.setTable r ph.requestPage.1 pt).Frames := h.setPhys hfree rfl
    have hloose : (st.setTable r ph.requestPage.1 pt).Loose ph.requestPage.2 :=
      ⟨haligned, hnow, fun s hs => (h.held s _ hs).2 hwas⟩
    refine ⟨hstep.newTable hloose (fun f hf => hf) rfl, fun f hf =>
      ⟨hf.aligned, fun hfr => hf.taken (hfree f hfr), fun s hs => ?_⟩⟩
    -- a loose frame is not the one of the new table, which was free
    rcases ownerAt_withTable ph hs with hold | ⟨-, rfl⟩
    · exact hf.unowned s hold
    · exact hf.taken hwas

/-- What an entry may show: a frame that nobody else owns, as memory, or one on loan. -/
def MayShow (st : VmSt) (r page f : Nat) (origin : Origin) : Prop :=
  match origin.lender with
  | none => frameOf f = f ∧ ¬ st.phys.Free f ∧ ∀ s, st.ownerAt s = some f → s = .leaf r page
  | some s => st.ownerAt s = some f

/-- Writing the entry of a page whose tables are there. -/
theorem Frames.setLeaf (h : (st.setTable r ph pt).Frames)
    (htables : (pt.table 3 (page / 512 ^ 3)).isSome ∧ (pt.table 2 (page / 512 ^ 2)).isSome ∧
      (pt.table 1 (page / 512)).isSome)
    (hshow : (st.setTable r ph pt).MayShow r page e.frame e.origin) (t : Nat) :
    (st.setTable r (setLeaf ph pt t page e).1 (setLeaf ph pt t page e).2).Frames := by
  unfold PageTable.setLeaf
  have hown : ∀ s f, (st.setTable r (ph.setEntry t (page % 512) e.bits)
      { pt with leaf := update pt.leaf page (some e) }).ownerAt s = some f →
      (st.setTable r ph pt).ownerAt s = some f ∨
        (s = .leaf r page ∧ f = e.frame ∧ e.origin.lender = none) := by
    intro s f hs
    rw [ownerAt_setTable] at hs ⊢
    split_ifs at hs with hspace
    · rw [if_pos hspace]
      cases s with
      | leaf r' p =>
        cases hspace
        obtain ⟨e', he', hl, hf⟩ := ownerIn_leaf.mp hs
        rcases update_eq_some he' with ⟨rfl, ⟨⟩⟩ | ⟨-, hold⟩
        · exact .inr ⟨rfl, hf.symm, hl⟩
        · exact .inl (ownerIn_leaf.mpr ⟨e', hold, hl, hf⟩)
      | _ => exact .inl hs
    · rw [if_neg hspace]
      exact .inl hs
  refine h.adopt (fun s f => s = .leaf r page ∧ f = e.frame ∧ e.origin.lender = none) hown
    ?_ (fun _ hf => hf) ?_ ?_ rfl
  · rintro s f ⟨rfl, rfl, hl⟩
    rw [MayShow, hl] at hshow
    exact ⟨hshow.1, hshow.2.1, fun s' hs' => hs'.elim (hshow.2.2 s') fun h => h.1⟩
  · refine lent_retable h fun p e' s he' hl => ?_
    rcases update_eq_some he' with ⟨-, ⟨⟩⟩ | ⟨-, hold⟩
    · rw [MayShow, hl] at hshow
      exact hshow
    · exact h.lent r p e' s (leafAt_setTable_self.trans hold) hl
  refine walkable_retable h fun p e' he' => ?_
  rcases update_eq_some he' with ⟨rfl, -⟩ | ⟨-, hold⟩
  · exact htables
  · exact h.walk r pt (by simp) p e' hold

theorem setTable_self (hpt : st.space r = some pt) : st.setTable r st.phys pt = st := by
  have hspace : update st.space r (some pt) = st.space := by
    rw [← hpt]
    exact update_eq_self r st.space
  rw [setTable, hspace]

/-- A frame that may be mapped: a loose one as memory, an owned one on loan. -/
def Mappable (st : VmSt) (f : Nat) (origin : Origin) : Prop :=
  match origin.lender with
  | none => st.Loose f
  | some s => st.ownerAt s = some f

theorem Mappable.mayShow (h : st.Mappable f origin) (r page : Nat) :
    st.MayShow r page f origin := by
  unfold Mappable at h
  unfold MayShow
  cases hl : origin.lender with
  | none =>
    rw [hl] at h
    exact ⟨h.aligned, h.taken, fun s hs => absurd hs (h.unowned s)⟩
  | some s =>
    rw [hl] at h
    exact h

/-- `ensure_table` does not make a frame less mappable. -/
theorem Mappable.retable (h : (st.setTable r ph pt).Mappable f origin)
    (hloose : (st.setTable r ph pt).Loose f → (st.setTable r ph' pt').Loose f) :
    (st.setTable r ph' pt').Mappable f origin := by
  unfold Mappable at h ⊢
  split at h
  · exact hloose h
  rename_i s hl
  have hspace := Origin.space_lender hl
  rw [ownerAt_setTable, hspace, if_neg (by simp)] at h ⊢
  exact h

/-- `map_memory` keeps the discipline. -/
theorem Frames.mapMemory (h : (st.setTable r ph pt).Frames) (va : Nat) {pa : Nat}
    (hshow : (st.setTable r ph pt).Mappable (frameOf pa) origin) (writable present : Bool) :
    (st.setTable r (mapMemory ph pt va pa writable present origin).1
      (mapMemory ph pt va pa writable present origin).2).Frames := by
  -- the tables that were made are there, and stay there
  refine mapMemory_rule (Q := fun ph pt => (st.setTable r ph pt).Frames)
    (P := fun level _ ph pt => (st.setTable r ph pt).Frames ∧
      (st.setTable r ph pt).Mappable (frameOf pa) origin ∧
      ∀ l, level < l → l ≤ 3 → (pt.table l (pageOf va / 512 ^ l)).isSome)
    ⟨h, hshow, fun l _ _ => by omega⟩ ?_ ?_
  · rintro level parent ph1 pt1 ph2 pt2 t ⟨h₁, hshow1, htables⟩ hx
    obtain ⟨h₂, hloose⟩ := h₁.ensureTable hx
    obtain ⟨hmore, hnew⟩ := ensureTable_tables hx
    refine ⟨fun _ => h₂, fun f hf => ⟨h₂, hshow1.retable (hloose _), fun l hl hl3 => ?_⟩⟩
    by_cases hlevel : l = level + 1
    · exact hlevel ▸ hnew (hf ▸ rfl)
    · exact hmore _ _ (htables l (by omega) hl3)
  rintro t ph1 pt1 ⟨h₁, hshow1, htables⟩
  have hentry := hshow1.mayShow r (pageOf va)
  exact Frames.setLeaf (e := ⟨frameOf pa, present, writable, origin⟩) h₁
    ⟨htables 3 (by decide) le_rfl, htables 2 (by decide) (by decide), by simpa using htables 1⟩
    hentry t

theorem Frames.mapPage (h : st.Frames) (r va : Nat) {pa : Nat}
    (hshow : st.Mappable (frameOf pa) origin) (writable present : Bool) :
    (st.mapPage r va pa writable present origin).Frames := by
  unfold VmSt.mapPage
  cases hpt : st.space r with
  | none => exact h
  | some pt =>
    rw [← setTable_self hpt] at h hshow
    exact h.mapMemory va hshow writable present

/-- `mprotect` maps a page again with the frame it has. -/
theorem Frames.remapPage (h : st.Frames)
    (hva : st.physicalAddressIgnorePresent r va ≠ 0) {writable present : Bool} :
    (st.mapPage r va (st.physicalAddressIgnorePresent r va) writable present
      (st.originOf r va)).Frames := by
  obtain ⟨pt, e, t, hpt, hentry, -, hphys, horigin, heq⟩ := mapPage_of_entry hva
    (st.physicalAddressIgnorePresent r va) writable present (st.originOf r va)
  have hleaf : st.leafAt r (pageOf va) = some e := by
    rw [leafAt, hpt]
    exact leaf_of_entry hentry
  have haligned := (h.leaf_held hleaf).1
  have hframe : frameOf (st.physicalAddressIgnorePresent r va) = e.frame := by
    rw [hphys]
    exact frameOf_eq haligned (Nat.le_add_right _ _)
      (Nat.add_lt_add_left (Nat.mod_lt _ (by decide)) _)
  rw [heq, hframe, horigin]
  have hself := setTable_self hpt
  have hframes := h
  rw [← hself] at hframes
  refine Frames.setLeaf (e := ⟨e.frame, present, writable, e.origin⟩) hframes
    (h.walk r pt hpt _ e (leaf_of_entry hentry)) ?_ t
  rw [hself, MayShow]
  cases hl : e.origin.lender with
  | none =>
    have hown : st.ownerAt (.leaf r (pageOf va)) = some e.frame := ownerAt_leaf.mpr ⟨e, hleaf, hl, rfl⟩
    exact ⟨haligned, (h.held _ _ hown).2, fun s hs => h.unique s _ _ hs hown⟩
  | some s => exact h.lent r _ e s hleaf hl

/-- The page keeps its frame and its origin. -/
theorem leafAt_remapPage {r' : Nat} {writable present : Bool} (hframes : st.Frames)
    (hva : st.physicalAddressIgnorePresent r va ≠ 0)
    (h : (st.mapPage r va (st.physicalAddressIgnorePresent r va) writable present
      (st.originOf r va)).leafAt r' p = some e) :
    ∃ e', st.leafAt r' p = some e' ∧ e'.origin = e.origin ∧ e'.frame = e.frame := by
  rcases leafAt_mapPage h with hold | ⟨rfl, rfl, rfl⟩
  · exact ⟨e, hold, rfl, rfl⟩
  obtain ⟨pt, e, t, hpt, hentry, -, hphys, horigin, -⟩ := mapPage_of_entry hva
    (st.physicalAddressIgnorePresent r' va) writable present (st.originOf r' va)
  have hleaf : st.leafAt r' (pageOf va) = some e := by
    rw [leafAt, hpt]
    exact leaf_of_entry hentry
  refine ⟨e, hleaf, horigin.symm, ?_⟩
  rw [hphys]
  exact (frameOf_eq (hframes.leaf_held hleaf).1 (Nat.le_add_right _ _)
    (Nat.add_lt_add_left (Nat.mod_lt _ (by decide)) _)).symm

/-! ## Unmapping -/

/-- The discipline is kept, and loose frames stay loose. -/
def Keeping (st st' : VmSt) : Prop := st'.Frames ∧ ∀ f, st.Loose f → st'.Loose f

theorem Keeping.trans {st'' : VmSt} (h : Keeping st st') (h' : Keeping st' st'') :
    Keeping st st'' :=
  ⟨h'.1, fun f hf => h'.2 f (h.2 f hf)⟩

/-- A table that is given back: nothing below it is mapped. -/
theorem Frames.freeTable (h : (st.setTable r ph pt).Frames) {key t : Nat} (parent : Nat)
    (ht : pt.table level key = some t)
    (hwalk : (PageTable.freeTable ph pt level key t parent).2.Walkable) :
    Keeping (st.setTable r ph pt) (st.setTable r (PageTable.freeTable ph pt level key t parent).1
      (PageTable.freeTable ph pt level key t parent).2) := by
  have hshrinks : PageTable.Shrinks ph pt (PageTable.freeTable ph pt level key t pt.pml4).1
      (PageTable.freeTable ph pt level key t parent).2 :=
    shrinks_freeTable level key t (.inl rfl)
  have htable : (st.setTable r ph pt).ownerAt (.table r level key) = some t :=
    (ownerAt_setTable_self rfl).trans ht
  obtain ⟨haligned, hused⟩ := h.held _ _ htable
  -- an owner afterwards was one before, and not the table
  have hown : ∀ s f, (st.setTable r (PageTable.freeTable ph pt level key t parent).1
      (PageTable.freeTable ph pt level key t parent).2).ownerAt s = some f →
      (st.setTable r ph pt).ownerAt s = some f ∧ s ≠ .table r level key := by
    intro s f hs
    rw [ownerAt_setTable] at hs ⊢
    split_ifs at hs with hspace
    · rw [if_pos hspace]
      cases s with
      | table r' l k =>
        refine ⟨hshrinks.table l k f hs, ?_⟩
        rintro ⟨⟩
        simp [ownerIn, PageTable.freeTable] at hs
      | leaf r' p =>
        obtain ⟨e, he, hl, hf⟩ := ownerIn_leaf.mp hs
        exact ⟨ownerIn_leaf.mpr ⟨e, hshrinks.leaf p e he, hl, hf⟩, fun heq => by cases heq⟩
      | pml4 r' => exact ⟨hs, fun heq => by cases heq⟩
      | _ => cases hspace
    · rw [if_neg hspace]
      exact ⟨hs, fun heq => hspace (heq ▸ rfl)⟩
  refine ⟨h.shrink (fun s f hs => (hown s f hs).1) ?_ ?_ (walkable_retable h hwalk) ?_, ?_⟩
  · intro s f hs hf
    obtain ⟨hold, hne⟩ := hown s f hs
    rcases freePage_free (hf : (ph.freePage t).Free f) with hf | heq
    · exact (h.held s f hold).2 hf
    · rw [(h.held s f hold).1, haligned] at heq
      exact hne (h.unique s _ t (heq ▸ hold) htable)
  · exact lent_retable h fun p e s he hl =>
      h.lent r p e s (leafAt_setTable_self.trans (hshrinks.leaf p e he)) hl
  · show (ph.freedTwice || decide (ph.Free t)) = false
    have honce : ph.freedTwice = false := h.once
    simp [honce, hused]
  intro f hf
  refine ⟨hf.aligned, fun hfree => ?_, fun s hs => hf.unowned s (hown s f hs).1⟩
  rcases freePage_free (hfree : (ph.freePage t).Free f) with hfree | heq
  · exact hf.taken hfree
  · rw [hf.aligned, haligned] at heq
    exact hf.unowned _ (heq ▸ htable)

/-- A table may be given back when none of the pages below it is mapped afterwards. -/
theorem walkable_freeTable (h : pt.Walkable) {key : Nat} {t parent : Nat}
    (hleaf : ∀ p e, (PageTable.freeTable ph pt level key t parent).2.leaf p = some e →
      pt.leaf p = some e ∧ p / 512 ^ level ≠ key) :
    (PageTable.freeTable ph pt level key t parent).2.Walkable := by
  intro p e he
  obtain ⟨hold, hkey⟩ := hleaf p e he
  obtain ⟨h3, h2, h1⟩ := h p e hold
  have htable : ∀ l, (pt.table l (p / 512 ^ l)).isSome →
      ((PageTable.freeTable ph pt level key t parent).2.table l (p / 512 ^ l)).isSome := by
    intro l hl
    by_cases hll : l = level
    · subst hll
      simpa only [PageTable.freeTable, update_self, update_of_ne hkey] using hl
    · rwa [freeTable_table_of_ne hll]
  exact ⟨htable 3 h3, htable 2 h2, by simpa using htable 1 (by simpa using h1)⟩

theorem walkable_freeTable_last (ph : Phys) (h : pt.Walkable) (key t parent : Nat) :
    (PageTable.freeTable ph pt 1 key t parent).2.Walkable := by
  refine walkable_freeTable h fun p e he => ?_
  simp only [PageTable.freeTable] at he
  split_ifs at he with hp
  exact ⟨he, fun hk => hp ⟨trivial, by simpa using hk⟩⟩

/-- Nothing is mapped below a table of a higher level that is empty. -/
theorem walkable_freeTable_empty (ph : Phys) (h : pt.Walkable) {key : Nat}
    (hempty : pt.isTableEmpty (level + 1) key)
    (hbelow : ∀ p e, pt.leaf p = some e → (pt.table level (p / 512 ^ level)).isSome)
    (hlevel : 0 < level)
    (t parent : Nat) : (PageTable.freeTable ph pt (level + 1) key t parent).2.Walkable := by
  refine walkable_freeTable h fun p e he => ?_
  simp only [PageTable.freeTable] at he
  rw [if_neg (by omega)] at he
  refine ⟨he, fun hk => ?_⟩
  have hsome := hbelow p e he
  have hkey : p / 512 ^ level / 512 = key := by rw [Nat.div_div_eq_div_mul, ← Nat.pow_succ, hk]
  have hall := all_eq_true.mp hempty (p / 512 ^ level % 512)
    (mem_range.mpr (Nat.mod_lt _ (by decide)))
  rw [if_neg (by omega), ← hkey, Nat.mul_comm, Nat.div_add_mod] at hall
  have hnone : pt.table level (p / 512 ^ level) = none := by simpa using hall
  rw [hnone] at hsome
  cases hsome

/-- The owners that are left when an entry is cleared. -/
theorem ownerAt_clearLeaf (ph : Phys)
    (hs : (st.setTable r ph' { pt with leaf := update pt.leaf page none }).ownerAt s =
      some f) : (st.setTable r ph pt).ownerAt s = some f ∧ s ≠ .leaf r page := by
  rw [ownerAt_setTable] at hs ⊢
  split_ifs at hs with hspace
  · rw [if_pos hspace]
    cases s with
    | leaf r' p =>
      obtain ⟨e, he, hl, hf⟩ := ownerIn_leaf.mp hs
      rcases update_eq_some he with ⟨-, ⟨⟩⟩ | ⟨hp, hold⟩
      refine ⟨ownerIn_leaf.mpr ⟨e, hold, hl, hf⟩, ?_⟩
      rintro ⟨⟩
      exact hp rfl
    | pml4 | table => exact ⟨hs, fun heq => by cases heq⟩
    | _ => cases hspace
  · rw [if_neg hspace]
    exact ⟨hs, fun heq => hspace (heq ▸ rfl)⟩

/-- Entries that go away do no harm. -/
theorem Frames.clearLeaf (h : (st.setTable r ph pt).Frames) (t page : Nat) :
    Keeping (st.setTable r ph pt) (st.setTable r (ph.setEntry t (page % 512) 0)
      { pt with leaf := update pt.leaf page none }) := by
  have hleaf : ∀ p e, update pt.leaf page none p = some e → pt.leaf p = some e := by
    intro p e he
    rcases update_eq_some he with ⟨-, ⟨⟩⟩ | ⟨-, hold⟩
    exact hold
  refine ⟨h.shrink (fun s f hs => (ownerAt_clearLeaf ph hs).1)
    (fun s f hs => (h.held s f (ownerAt_clearLeaf ph hs).1).2) ?_ ?_ h.once,
    fun f hf => ⟨hf.aligned, hf.taken, fun s hs => hf.unowned s (ownerAt_clearLeaf ph hs).1⟩⟩
  · exact lent_retable h fun p e s he hl =>
      h.lent r p e s (leafAt_setTable_self.trans (hleaf p e he)) hl
  · exact walkable_retable h fun p e he => h.walk r pt (by simp) p e (hleaf p e he)

/-- The tables that have become empty are given back. -/
theorem Frames.freeEmptyTables (h : (st.setTable r ph pt).Frames) {t pd pdp : Nat}
    (ht : pt.table 1 (page / 512) = some t) (hpd : pt.table 2 (page / 512 ^ 2) = some pd)
    (hpdp : pt.table 3 (page / 512 ^ 3) = some pdp) :
    Keeping (st.setTable r ph pt) (st.setTable r (freeEmptyTables ph pt page t pd pdp).1
      (freeEmptyTables ph pt page t pd pdp).2) := by
  have hwalk : pt.Walkable := h.walk r pt (by simp)
  unfold PageTable.freeEmptyTables
  split
  · have hwalk1 := walkable_freeTable_last ph hwalk (page / 512) t pd
    have hlast := h.freeTable pd ht hwalk1
    have hpd1 : (PageTable.freeTable ph pt 1 (page / 512) t pd).2.table 2 (page / 512 ^ 2) = some pd :=
      (freeTable_table_of_ne (by decide)).trans hpd
    have hpdp1 : (PageTable.freeTable ph pt 1 (page / 512) t pd).2.table 3 (page / 512 ^ 3) =
        some pdp := (freeTable_table_of_ne (by decide)).trans hpdp
    dsimp only
    split
    · rename_i hempty2
      have hwalk2 := walkable_freeTable_empty (PageTable.freeTable ph pt 1 (page / 512) t pd).1 hwalk1
        hempty2 (fun p e he => by simpa using (hwalk1 p e he).2.2) (by decide) pd pdp
      have hmid := hlast.trans (hlast.1.freeTable pdp hpd1 hwalk2)
      split
      · rename_i hempty3
        refine hmid.trans (hmid.1.freeTable pt.pml4 ?_ (walkable_freeTable_empty _ hwalk2 hempty3
          (fun p e he => (hwalk2 p e he).2.1) (by decide) _ _))
        exact (freeTable_table_of_ne (by decide)).trans hpdp1
      · exact hmid
    · exact hlast
  · exact ⟨h, fun f hf => hf⟩

theorem Frames.unmapMemory (h : (st.setTable r ph pt).Frames) (va : Nat) :
    Keeping (st.setTable r ph pt) (st.setTable r (unmapMemory ph pt va).1
      (unmapMemory ph pt va).2) := by
  unfold PageTable.unmapMemory
  dsimp only
  split
  · rename_i pdp pd t hpdp hpd ht
    split
    · have hclear := h.clearLeaf t (pageOf va)
      exact hclear.trans (hclear.1.freeEmptyTables ht hpd hpdp)
    · exact ⟨h, fun f hf => hf⟩
  · exact ⟨h, fun f hf => hf⟩

/-- `unmap_memory` keeps the discipline. -/
theorem Frames.unmapPage (h : st.Frames) (r va : Nat) : Keeping st (st.unmapPage r va) := by
  unfold VmSt.unmapPage
  cases hpt : st.space r with
  | none => exact ⟨h, fun f hf => hf⟩
  | some pt =>
    have hframes := h
    rw [← setTable_self hpt] at hframes
    have hkeep := hframes.unmapMemory va
    rw [setTable_self hpt] at hkeep
    exact hkeep

/-- The page itself is not mapped any more, if it was present; its frame is loose if it was
memory. -/
theorem unmapPage_page (h : st.Frames)
    (he : st.leafAt r (pageOf va) = some e) (hpresent : e.present) :
    (st.unmapPage r va).leafAt r (pageOf va) = none ∧
      (e.origin.lender = none → (st.unmapPage r va).Loose e.frame) := by
  obtain ⟨pt, hpt, hleaf⟩ := Option.bind_eq_some_iff.mp he
  obtain ⟨h3, h2, h1⟩ := h.walk r pt hpt _ e hleaf
  obtain ⟨pdp, hpdp⟩ := Option.isSome_iff_exists.mp h3
  obtain ⟨pd, hpd⟩ := Option.isSome_iff_exists.mp h2
  obtain ⟨t, ht⟩ := Option.isSome_iff_exists.mp h1
  have hany : (pt.leaf (pageOf va)).any Pte.present := by rw [hleaf]; exact hpresent
  generalize hy : freeEmptyTables (st.phys.setEntry t (pageOf va % 512) 0)
    { pt with leaf := update pt.leaf (pageOf va) none } (pageOf va) t pd pdp = y
  have heq : st.unmapPage r va = st.setTable r y.1 y.2 := by
    unfold VmSt.unmapPage PageTable.unmapMemory
    simp only [hpt, hpdp, hpd, ht, hany, if_true, hy]
  rw [heq]
  have hframes := h
  rw [← setTable_self hpt] at hframes
  have hclear := hframes.clearLeaf t (pageOf va)
  have hrest := hclear.1.freeEmptyTables ht hpd hpdp
  rw [hy] at hrest
  constructor
  · rw [leafAt_setTable_self]
    have hshrinks : PageTable.Shrinks (st.phys.setEntry t (pageOf va % 512) 0)
        { pt with leaf := update pt.leaf (pageOf va) none } y.1 y.2 :=
      hy ▸ shrinks_freeEmptyTables (.inr ⟨2, _, hpd⟩) hpdp
    refine Option.eq_none_iff_forall_ne_some.mpr fun e' he' => ?_
    have hnone : update pt.leaf (pageOf va) none (pageOf va) = some e' := hshrinks.leaf _ e' he'
    rw [update_self] at hnone
    cases hnone
  intro hl
  have hown : st.ownerAt (.leaf r (pageOf va)) = some e.frame := ownerAt_leaf.mpr ⟨e, he, hl, rfl⟩
  obtain ⟨haligned, hused⟩ := h.held _ _ hown
  refine hrest.2 _ ⟨haligned, hused, fun s hs => ?_⟩
  -- the only owner was the entry, and that is cleared
  obtain ⟨hold, hne⟩ := ownerAt_clearLeaf st.phys hs
  rw [setTable_self hpt] at hold
  exact hne (h.unique s _ _ hold hown)

/-! ## Objects -/

/-- Nothing changes for the owners. -/
theorem Keeping.same (h : st.Frames) (hphys : st'.phys = st.phys) (hspace : st'.space = st.space)
    (hown : ∀ s, st'.ownerAt s = st.ownerAt s) : Keeping st st' := by
  have hleaf : ∀ r p, st'.leafAt r p = st.leafAt r p := fun r p => by rw [leafAt, leafAt, hspace]
  constructor
  · refine h.shrink (fun s f hs => hown s ▸ hs) (fun s f hs => ?_) (fun r p e s he hl => ?_) ?_ ?_
    · rw [hphys]
      exact (h.held s f (hown s ▸ hs)).2
    · rw [hown s]
      exact h.lent r p e s (hleaf r p ▸ he) hl
    · rw [hspace]
      exact h.walk
    · rw [hphys]
      exact h.once
  · intro f hf
    exact ⟨hf.aligned, hphys ▸ hf.taken, fun s => hown s ▸ hf.unowned s⟩

theorem ownerAt_setObj (st : VmSt) (o : Nat) (b : Option Backing) (s : Site) :
    (∃ i, s = .object o i ∧ (st.setObj o b).ownerAt s = pageAt b i) ∨
      ((∀ i, s ≠ .object o i) ∧ (st.setObj o b).ownerAt s = st.ownerAt s) := by
  cases s with
  | object o' i =>
    by_cases ho : o' = o
    · subst ho
      refine .inl ⟨i, rfl, ?_⟩
      rw [ownerAt_of_space_none rfl]
      simp [VmSt.frameAt, setObj]
    · refine .inr ⟨fun j hj => ho (by cases hj; rfl), ?_⟩
      rw [ownerAt_of_space_none rfl, ownerAt_of_space_none rfl]
      simp [VmSt.frameAt, setObj, ho]
  | _ => exact .inr ⟨fun j => nofun, rfl⟩

theorem ownerAt_object (st : VmSt) (o i : Nat) : st.ownerAt (.object o i) = pageAt (st.obj o) i :=
  ownerAt_of_space_none rfl

/-- An object may change if its pages do not. -/
theorem Keeping.setObj (h : st.Frames) {o : Nat} {b : Option Backing}
    (hb : ∀ i, pageAt b i = pageAt (st.obj o) i) : Keeping st (st.setObj o b) := by
  refine .same h rfl rfl fun s => ?_
  rcases ownerAt_setObj st o b s with ⟨i, rfl, heq⟩ | ⟨-, heq⟩
  · rw [heq, hb i, ownerAt_object]
  · exact heq

theorem pageAt_eq_some {b : Backing} {i : Nat} :
    pageAt (some b) i = some f ↔ b.pages[i]? = some f ∧ f ≠ 0 := by
  simp [pageAt, Option.filter_eq_some_iff]

/-- An object without pages. -/
theorem pageAt_of_zero {b : Backing} (hb : ∀ f ∈ b.pages, f = 0) {i : Nat} :
    pageAt (some b) i = none := by
  refine Option.eq_none_iff_forall_ne_some.mpr fun f hf => ?_
  obtain ⟨hget, hne⟩ := pageAt_eq_some.mp hf
  exact hne (hb f (mem_of_getElem? hget))

/-- A loose frame becomes a page of an object. -/
theorem Frames.setPage (h : st.Frames) {o : Nat} {b : Backing} (hb : st.obj o = some b) {i : Nat}
    (hi : i < b.pages.length) (hzero : b.pages.getD i 0 = 0) (hf : st.Loose f) (hne : f ≠ 0) :
    (st.setObj o (some { b with pages := b.pages.set i f })).Frames ∧
      (st.setObj o (some { b with pages := b.pages.set i f })).ownerAt (.object o i) = some f := by
  generalize hb' : ({ b with pages := b.pages.set i f } : Backing) = b'
  -- the pages of the object: the new one and the others
  have hpage : ∀ j g, pageAt (some b') j = some g →
      pageAt (st.obj o) j = some g ∨ (j = i ∧ g = f) := by
    intro j g hg
    obtain ⟨hget, hg0⟩ := pageAt_eq_some.mp hg
    rw [← hb'] at hget
    rcases eq_or_ne j i with rfl | hj
    · rw [getElem?_set_self hi, Option.some.injEq] at hget
      exact .inr ⟨rfl, hget.symm⟩
    · rw [getElem?_set_ne (Ne.symm hj)] at hget
      rw [hb]
      exact .inl (pageAt_eq_some.mpr ⟨hget, hg0⟩)
  have hkeep : ∀ j g, pageAt (st.obj o) j = some g →
      pageAt (some b') j = some g := by
    intro j g hg
    rw [hb] at hg
    obtain ⟨hget, hg0⟩ := pageAt_eq_some.mp hg
    have hj : j ≠ i := by
      rintro rfl
      rw [getD_eq_getElem?_getD, hget] at hzero
      exact hg0 hzero
    rw [← hb']
    exact pageAt_eq_some.mpr ⟨(getElem?_set_ne (Ne.symm hj)).trans hget, hg0⟩
  have hself : (st.setObj o (some b')).ownerAt (.object o i) = some f := by
    rw [ownerAt_object, ← hb']
    simp only [VmSt.setObj, update_self]
    exact pageAt_eq_some.mpr ⟨getElem?_set_self hi, hne⟩
  have hown : ∀ s g, (st.setObj o (some b')).ownerAt s = some g →
      st.ownerAt s = some g ∨ (s = .object o i ∧ g = f) := by
    intro s g hs
    rcases ownerAt_setObj st o (some b') s with ⟨j, rfl, heq⟩ | ⟨-, heq⟩
    · rcases hpage j g (heq ▸ hs) with hold | ⟨rfl, rfl⟩
      · exact .inl ((ownerAt_object st o j).trans hold)
      · exact .inr ⟨rfl, rfl⟩
    · exact .inl (heq ▸ hs)
  refine ⟨h.adopt (fun s g => s = .object o i ∧ g = f) hown ?_ (fun _ hg => hg) ?_ h.walk rfl, hself⟩
  · rintro s g ⟨rfl, rfl⟩
    exact hf.adopts fun s' h => h.1
  intro r p e s he hl
  have hold := h.lent r p e s he hl
  rcases ownerAt_setObj st o (some b') s with ⟨j, rfl, heq⟩ | ⟨-, heq⟩
  · rw [heq]
    exact hkeep j _ ((ownerAt_object st o j).symm.trans hold)
  · exact heq.trans hold

/-- No page has a page of the object on loan. -/
def Unlent (st : VmSt) (o : Nat) : Prop :=
  ∀ r p e i, st.leafAt r p = some e → e.origin.lender ≠ some (.object o i)

/-- Giving back frames that are loose and different. -/
theorem Frames.freeObjectPages (h : st.Frames) {fs : List Nat}
    (hloose : ∀ f ∈ fs, f ≠ 0 → st.Loose f) (hdistinct : fs.Pairwise fun f g => f ≠ 0 → f ≠ g) :
    (st.freeObjectPages fs).Frames := by
  unfold VmSt.freeObjectPages
  induction fs generalizing st with
  | nil => exact h
  | cons f fs ih =>
    obtain ⟨hne, hrest⟩ := pairwise_cons.mp hdistinct
    rw [foldl_cons]
    split_ifs with hzero
    · exact ih h (fun g hg => hloose g (mem_cons_of_mem f hg)) hrest
    have hf := hloose f mem_cons_self hzero
    refine ih (h.freePage (hf.aligned.symm ▸ hf)) (fun g hg hg0 => ?_) hrest
    refine (hloose g (mem_cons_of_mem f hg) hg0).freePage ?_
    rw [hf.aligned]
    exact (hne g hg hzero).symm

theorem freeObjectPages_setObj (st : VmSt) (fs : List Nat) (o : Nat) (b : Option Backing) :
    (st.freeObjectPages fs).setObj o b = (st.setObj o b).freeObjectPages fs := by
  unfold VmSt.freeObjectPages
  induction fs generalizing st with
  | nil => rfl
  | cons f fs ih =>
    rw [foldl_cons, foldl_cons]
    split_ifs
    · exact ih st
    · exact ih (st.freePage f)

/-- The pages of an object from the `n`-th on may be given back, if no page has one on loan. -/
theorem Frames.cutObject (h : st.Frames) {o n : Nat} {b : Backing} {b' : Option Backing}
    (hb : st.obj o = some b) (hunlent : st.Unlent o)
    (hpages : ∀ i f, pageAt b' i = some f → i < n ∧ pageAt (some b) i = some f) :
    ((st.freeObjectPages (b.pages.drop n)).setObj o b').Frames := by
  rw [freeObjectPages_setObj]
  have hown : ∀ s f, (st.setObj o b').ownerAt s = some f →
      st.ownerAt s = some f ∧ ∀ i, n ≤ i → s ≠ .object o i := by
    intro s f hs
    rcases ownerAt_setObj st o b' s with ⟨j, rfl, heq⟩ | ⟨hne, heq⟩
    · obtain ⟨hlt, hold⟩ := hpages j f (heq ▸ hs)
      refine ⟨by rw [ownerAt_object, hb]; exact hold, fun i hi hs => ?_⟩
      cases hs
      omega
    · exact ⟨heq ▸ hs, fun i _ => hne i⟩
  have hcut : (st.setObj o b').Frames := by
    refine h.shrink (fun s f hs => (hown s f hs).1) (fun s f hs => (h.held s f (hown s f hs).1).2)
      (fun r p e s he hl => ?_) h.walk h.once
    rcases ownerAt_setObj st o b' s with ⟨j, rfl, -⟩ | ⟨-, heq⟩
    · exact absurd hl (hunlent r p e j he)
    · exact heq.trans (h.lent r p e s he hl)
  -- the pages that are dropped were owned by the object only
  have hpage : ∀ i f, (b.pages.drop n)[i]? = some f → f ≠ 0 →
      st.ownerAt (.object o (n + i)) = some f := by
    intro i f hi hf
    rw [ownerAt_object, hb]
    exact pageAt_eq_some.mpr ⟨by rw [← getElem?_drop]; exact hi, hf⟩
  refine hcut.freeObjectPages (fun f hf hf0 => ?_) ?_
  · obtain ⟨i, hi⟩ := getElem?_of_mem hf
    have hfo := hpage i f hi hf0
    refine ⟨(h.held _ _ hfo).1, (h.held _ _ hfo).2, fun s hs => ?_⟩
    obtain ⟨hold, hne⟩ := hown s f hs
    exact hne (n + i) (Nat.le_add_right n i) (h.unique s _ f hold hfo)
  refine pairwise_iff_getElem.mpr fun i j hi hj hlt hi0 heq => ?_
  have hfi := hpage i _ (getElem?_eq_getElem hi) hi0
  have hfj := hpage j _ (getElem?_eq_getElem hj) (heq ▸ hi0)
  rw [← heq] at hfj
  have := h.unique _ _ _ hfi hfj
  simp only [Site.object.injEq] at this
  omega

/-- `delete` of an object that is not mapped. -/
theorem Frames.destroyObject (h : st.Frames) {o : Nat} {b b' : Backing} (hb : st.obj o = some b)
    (hpages : b'.pages = b.pages) (hunlent : st.Unlent o) : (st.destroyObject o b').Frames := by
  have hcut : ((st.freeObjectPages (b.pages.drop 0)).setObj o none).Frames :=
    h.cutObject hb hunlent fun i f hf => by cases hf
  rw [drop_zero, ← hpages] at hcut
  have hkeep : Keeping ((st.freeObjectPages b'.pages).setObj o none) (st.destroyObject o b') :=
    .same hcut rfl rfl fun s => rfl
  exact hkeep.1

/-! ## Units -/

theorem ownerAt_run {u : Nat} {kind : RunKind} {i : Nat} :
    st.ownerAt (.run u kind i) = runAt (st.unit u) kind i := ownerAt_of_space_none rfl

theorem ownerAt_setUnit (st : VmSt) (u : Nat) (x : VmUnit) (s : Site) :
    (∃ kind i, s = .run u kind i ∧ (st.setUnit u x).ownerAt s = runAt (some x) kind i) ∨
      ((∀ kind i, s ≠ .run u kind i) ∧ (st.setUnit u x).ownerAt s = st.ownerAt s) := by
  cases s with
  | run u' kind i =>
    by_cases hu : u' = u
    · subst hu
      exact .inl ⟨kind, i, rfl, by rw [ownerAt_run, setUnit_unit, update_self]⟩
    · refine .inr ⟨fun kind' i' hs => hu (by cases hs; rfl), ?_⟩
      rw [ownerAt_run, ownerAt_run, setUnit_unit, update_of_ne hu]
  | _ => exact .inr ⟨fun kind i => nofun, rfl⟩

/-- A unit may change if its runs do not. -/
theorem Keeping.setUnit (h : st.Frames) {u : Nat} {x : VmUnit}
    (hx : ∀ kind i, runAt (some x) kind i = runAt (st.unit u) kind i) :
    Keeping st (st.setUnit u x) := by
  refine .same h rfl rfl fun s => ?_
  rcases ownerAt_setUnit st u x s with ⟨kind, i, rfl, heq⟩ | ⟨-, heq⟩
  · rw [heq, hx kind i, ownerAt_run]
  · exact heq

theorem runAt_eq_some {x : VmUnit} {kind : RunKind} {n i g : Nat} (hx : x.run kind = some ⟨f, n⟩) :
    runAt (some x) kind i = some g ↔ i < n ∧ f + i * pageSize = g := by
  simp [runAt, hx]

/-- A stretch of loose frames becomes a run of a unit. -/
theorem Frames.addRun (h : st.Frames) {u : Nat} {x : VmUnit} {kind : RunKind} {n : Nat}
    (hnone : ∀ i, runAt (st.unit u) kind i = none)
    (hsame : ∀ kind' i, kind' ≠ kind → runAt (some x) kind' i = runAt (st.unit u) kind' i)
    (hx : x.run kind = some ⟨f, n⟩) (hloose : ∀ i, i < n → st.Loose (f + i * pageSize)) :
    (st.setUnit u x).Frames ∧
      ∀ i, i < n → (st.setUnit u x).ownerAt (.run u kind i) = some (f + i * pageSize) := by
  have hself : ∀ i, i < n → (st.setUnit u x).ownerAt (.run u kind i) = some (f + i * pageSize) := by
    intro i hi
    rw [ownerAt_run, setUnit_unit, update_self]
    exact (runAt_eq_some hx).mpr ⟨hi, rfl⟩
  have hown : ∀ s g, (st.setUnit u x).ownerAt s = some g →
      st.ownerAt s = some g ∨ ∃ i, i < n ∧ s = .run u kind i ∧ f + i * pageSize = g := by
    intro s g hs
    rcases ownerAt_setUnit st u x s with ⟨kind', i, rfl, heq⟩ | ⟨-, heq⟩
    · by_cases hkind : kind' = kind
      · subst hkind
        obtain ⟨hi, hg⟩ := (runAt_eq_some hx).mp (heq ▸ hs)
        exact .inr ⟨i, hi, rfl, hg⟩
      · exact .inl (by rw [ownerAt_run, ← hsame kind' i hkind]; exact heq ▸ hs)
    · exact .inl (heq ▸ hs)
  refine ⟨h.adopt (fun s g => ∃ i, i < n ∧ s = .run u kind i ∧ f + i * pageSize = g) hown ?_
    (fun _ hg => hg) ?_ h.walk rfl, hself⟩
  · rintro s g ⟨i, hi, rfl, rfl⟩
    refine (hloose i hi).adopts ?_
    rintro s' ⟨j, -, rfl, heq⟩
    have hij : j = i := by
      have hpage : pageSize = 4096 := rfl
      rw [hpage] at heq
      omega
    rw [hij]
  intro r p e s he hl
  have hold := h.lent r p e s he hl
  rcases ownerAt_setUnit st u x s with ⟨kind', i, rfl, heq⟩ | ⟨-, heq⟩
  · rw [ownerAt_run] at hold
    by_cases hkind : kind' = kind
    · subst hkind
      rw [hnone i] at hold
      cases hold
    · rw [heq, hsame kind' i hkind]
      exact hold
  · exact heq.trans hold

/-! ## Realms, the kernel and accesses -/

/-- A loose frame becomes the PML4 of a new realm. -/
theorem Frames.newSpace (h : st.Frames) (hf : st.Loose f)
    (hfree : ∀ g, ph.Free g → st.phys.Free g) (honce : ph.freedTwice = st.phys.freedTwice) :
    (st.setTable r ph (emptyTable f)).Frames := by
  have hown : ∀ s g, (st.setTable r ph (emptyTable f)).ownerAt s = some g →
      st.ownerAt s = some g ∨ (s = .pml4 r ∧ f = g) := by
    intro s g hs
    rw [ownerAt_setTable] at hs
    split_ifs at hs with hspace
    · cases s with
      | pml4 r' =>
        cases hspace
        exact .inr ⟨rfl, Option.some.inj hs⟩
      | table r' l k => cases hs
      | leaf r' p => cases hs
      | _ => cases hspace
    · exact .inl hs
  have hleaf : ∀ r' p e, (st.setTable r ph (emptyTable f)).leafAt r' p = some e →
      st.leafAt r' p = some e := by
    intro r' p e he
    rw [leafAt_setTable] at he
    split_ifs at he
    · cases he
    · exact he
  refine h.adopt (fun s g => s = .pml4 r ∧ f = g) hown ?_ hfree ?_ ?_ honce
  · rintro s g ⟨rfl, rfl⟩
    exact hf.adopts fun s' h => h.1
  · intro r' p e s he hl
    rw [ownerAt_setTable, Origin.space_lender hl, if_neg (by simp)]
    exact h.lent r' p e s (hleaf r' p e he) hl
  intro r' q hq
  rcases update_eq_some hq with ⟨-, ⟨⟩⟩ | ⟨-, hold⟩
  · intro p e he
    cases he
  · exact h.walk r' q hold

theorem ownerAt_kernel {g : Nat} :
    st.ownerAt (.kernel g) = if g ∈ st.kernelFrames then some g else none :=
  ownerAt_of_space_none rfl

theorem ownerAt_setKernel (st : VmSt) (frames : List Nat) (s : Site) :
    (∃ g, s = .kernel g ∧ ({ st with kernelFrames := frames } : VmSt).ownerAt s =
        if g ∈ frames then some g else none) ∨
      ((∀ g, s ≠ .kernel g) ∧ ({ st with kernelFrames := frames } : VmSt).ownerAt s = st.ownerAt s) := by
  cases s with
  | kernel g => exact .inl ⟨g, rfl, ownerAt_kernel⟩
  | _ => exact .inr ⟨fun g => nofun, rfl⟩

/-- What pages have on loan is not the kernel's. -/
theorem lender_ne_kernel {o : Origin} (h : o.lender = some s) {g : Nat} : s ≠ .kernel g := by
  rintro rfl
  cases o <;> cases h

/-- Loose frames become the kernel's. -/
theorem Frames.addKernel (h : st.Frames) {fs : List Nat} (hloose : ∀ g ∈ fs, st.Loose g) :
    ({ st with kernelFrames := fs ++ st.kernelFrames } : VmSt).Frames := by
  refine h.adopt (fun s g => s = .kernel g ∧ st.Loose g) (fun s g hs => ?_) ?_ (fun _ hg => hg) ?_
    h.walk rfl
  · rcases ownerAt_setKernel st (fs ++ st.kernelFrames) s with ⟨g', rfl, heq⟩ | ⟨-, heq⟩
    · rw [heq] at hs
      split_ifs at hs with hmem
      cases hs
      rcases mem_append.mp hmem with hnew | hold
      · exact .inr ⟨rfl, hloose g hnew⟩
      · exact .inl (by rw [ownerAt_kernel, if_pos hold])
    · exact .inl (heq ▸ hs)
  · rintro s g ⟨rfl, hg⟩
    exact hg.adopts fun s' h => h.1
  intro r p e s he hl
  rcases ownerAt_setKernel st (fs ++ st.kernelFrames) s with ⟨g, rfl, -⟩ | ⟨-, heq⟩
  · exact absurd rfl (lender_ne_kernel hl)
  · exact heq.trans (h.lent r p e s he hl)

theorem kernelTake_frames (h : st.Frames) {n : Nat} : (st.kernelTake n).1.Frames := by
  obtain ⟨hframes, hloose⟩ := h.request n
  unfold VmSt.kernelTake
  dsimp only
  split_ifs with hnull
  · exact hframes
  obtain ⟨-, hloose⟩ := hloose hnull
  refine hframes.addKernel fun g hg => ?_
  obtain ⟨i, hi, rfl⟩ := mem_map.mp hg
  exact hloose i (mem_range.mp hi)

theorem kernelGive_frames (h : st.Frames) : (st.kernelGive f).Frames := by
  unfold VmSt.kernelGive
  split_ifs with hmem
  · have hfo : st.ownerAt (.kernel f) = some f := by rw [ownerAt_kernel, if_pos hmem]
    have hown : ∀ s g, ({ st with kernelFrames := st.kernelFrames.filter fun g => g ≠ f } :
        VmSt).ownerAt s = some g → st.ownerAt s = some g ∧ s ≠ .kernel f := by
      intro s g hs
      rcases ownerAt_setKernel st (st.kernelFrames.filter fun g => g ≠ f) s with
        ⟨g', rfl, heq⟩ | ⟨hne, heq⟩
      · rw [heq] at hs
        split_ifs at hs with hg
        cases hs
        obtain ⟨hold, hne⟩ := mem_filter.mp hg
        refine ⟨by rw [ownerAt_kernel, if_pos hold], fun hs => ?_⟩
        cases hs
        simp at hne
      · exact ⟨heq ▸ hs, hne f⟩
    have hdrop : ({ st with kernelFrames := st.kernelFrames.filter fun g => g ≠ f } : VmSt).Frames := by
      refine h.shrink (fun s g hs => (hown s g hs).1) (fun s g hs => (h.held s g (hown s g hs).1).2)
        (fun r p e s he hl => ?_) h.walk h.once
      rcases ownerAt_setKernel st (st.kernelFrames.filter fun g => g ≠ f) s with
        ⟨g, rfl, -⟩ | ⟨-, heq⟩
      · exact absurd rfl (lender_ne_kernel hl)
      · exact heq.trans (h.lent r p e s he hl)
    refine hdrop.freePage (a := f) ?_
    rw [(h.held _ _ hfo).1]
    refine ⟨(h.held _ _ hfo).1, (h.held _ _ hfo).2, fun s hs => ?_⟩
    obtain ⟨hold, hne⟩ := hown s f hs
    exact hne (h.unique s _ f hold hfo)
  · exact h

theorem store_frames (h : st.Frames) {b : UInt8} : (st.store r va b).Frames := by
  unfold VmSt.store
  split
  · rename_i e he
    split_ifs
    · obtain ⟨pt, hpt, -, -⟩ := userEntry_some he
      rw [hpt, Option.map_some]
      have hownIn : ∀ s, (pt.markWritten va).ownerIn s = pt.ownerIn s := by
        intro s
        cases s with
        | leaf r' p =>
          simp only [ownerIn, markWritten]
          by_cases hp : p = pageOf va
          · subst hp
            rw [update_self]
            cases pt.leaf (pageOf va) <;> simp
          · rw [update_of_ne hp]
        | _ => rfl
      have hframes := h
      rw [← setTable_self hpt] at hframes
      have hleaf : ∀ p e', (pt.markWritten va).leaf p = some e' →
          ∃ e'', pt.leaf p = some e'' ∧ e''.frame = e'.frame ∧
            e''.origin.lender = e'.origin.lender := by
        intro p e' he'
        obtain ⟨e'', he'', hfr, -, horigin⟩ := markWritten_leaf he'
        refine ⟨e'', he'', hfr, ?_⟩
        rcases horigin with ⟨-, ho⟩ | ⟨-, rfl⟩
        · rw [ho, Origin.lender_written]
        · rfl
      have hown : ∀ ph s, (st.setTable r ph (pt.markWritten va)).ownerAt s = st.ownerAt s := by
        intro ph s
        rw [ownerAt_setTable]
        split_ifs with hspace
        · rw [hownIn, ownerAt_of_space hpt hspace]
        · rfl
      refine h.shrink (fun s f hs => (hown _ s).symm.trans hs)
        (fun s f hs => (h.held s f ((hown _ s).symm.trans hs)).2) ?_ ?_ h.once
      · refine lent_retable hframes fun p e' s he' hl => ?_
        obtain ⟨e'', he'', hfr, hlend⟩ := hleaf p e' he'
        rw [setTable_self hpt, ← hfr]
        exact h.lent r p e'' s (by rw [leafAt, hpt]; exact he'') (hlend.trans hl)
      · refine walkable_retable hframes fun p e' he' => ?_
        obtain ⟨e'', he'', -⟩ := hleaf p e' he'
        exact h.walk r pt hpt p e'' he''
    · exact h
  · exact h

end VmSt

end Vespera.Memory
