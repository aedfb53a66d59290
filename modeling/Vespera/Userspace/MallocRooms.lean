import Mathlib.Data.List.Pairwise
import Vespera.Userspace.MallocHeap

/-! # What the allocator hands out

`Rep st slots` is the invariant of the allocator between two calls: the heap is laid out in `slots`,
the list of large blocks is the list of mappings, and none of these meet. A `Room` is the part of a
used slot or of a mapping behind its header; all that a caller gets are rooms. Rooms never overlap
each other or a header (`Rep.rooms_apart`, `Rep.room_apart_header`).

Every call is described by what it does to rooms: `KeepsBut` says that all rooms but one are still
there, with their contents.

* `malloc_allocates`: a new room that is large enough, or nothing;
* `free_returns`: the room becomes part of a free slot, or its mapping is gone.
-/

namespace Vespera.Userspace

open Lib List Malloc

/-! ## The list of large blocks -/

section Large

variable {m m' : ByteMem} {a x : Nat} {l : List (Nat × Nat)}

/-- The pointer to the first mapping of a list. -/
def headPtr : List (Nat × Nat) → Nat
  | [] => 0
  | r :: _ => r.1

theorem headPtr_cons {r : Nat × Nat} : headPtr (r :: l) = r.1 := rfl

/-- The mappings of `l` have their headers, each with the pointer to the next. -/
def LargeList (m : ByteMem) : List (Nat × Nat) → Prop
  | [] => True
  | r :: l => largeSeg m r.1 = ⟨r.1 + 24, r.2 - 24, headPtr l⟩ ∧ LargeList m l

theorem largeSeg_congr (h : ∀ x, a ≤ x → x < a + 24 → m' x = m x) :
    largeSeg m' a = largeSeg m a := by
  have hload : ∀ i, i + 8 ≤ 24 → m'.load 8 (a + i) = m.load 8 (a + i) := by
    intro i hi
    apply ByteMem.load_congr
    intro y h1 h2
    exact h y (by omega) (by omega)
  simp only [largeSeg, hload 8 (by decide), hload 16 (by decide),
    show m'.load 8 a = m.load 8 a from hload 0 (by decide)]

theorem putLargeSeg_of_outside {s : LargeSeg} (h : x < a ∨ a + 24 ≤ x) :
    putLargeSeg m a s x = m x := by
  unfold putLargeSeg
  rw [ByteMem.store_of_not_mem (by omega), ByteMem.store_of_not_mem (by omega),
    ByteMem.store_of_not_mem (by omega)]

theorem largeSeg_put {s : LargeSeg} (h1 : s.addr < 2 ^ 64) (h2 : s.size < 2 ^ 64)
    (h3 : s.next < 2 ^ 64) : largeSeg (putLargeSeg m a s) a = s := by
  obtain ⟨addr, size, next⟩ := s
  simp (disch := omega) only [largeSeg, putLargeSeg, ByteMem.load_store_of_disjoint,
    ByteMem.load_store_self, LargeSeg.mk.injEq]
  exact ⟨Nat.mod_eq_of_lt h1, Nat.mod_eq_of_lt h2, Nat.mod_eq_of_lt h3⟩

theorem LargeList.congr (h : LargeList m l)
    (hm : ∀ r ∈ l, ∀ x, r.1 ≤ x → x < r.1 + 24 → m' x = m x) : LargeList m' l := by
  induction l with
  | nil => trivial
  | cons r l ih =>
    refine ⟨(largeSeg_congr (hm r mem_cons_self)).trans h.1, ih h.2 ?_⟩
    intro r' hr'
    exact hm r' (mem_cons_of_mem _ hr')

end Large

/-! ## The invariant, and rooms -/

structure Rep (st : Malloc) (slots : List Slot) : Prop where
  heap : (st.heapHead = 0 ∧ slots = []) ∨
    (st.heapHead = st.heapBase ∧ Laid st.mem st.heapBase st.heapEnd slots)
  list : st.largeAllocList = headPtr st.maps
  large : LargeList st.mem st.maps
  maps : ∀ r ∈ st.maps, 0 < r.1 ∧ r.1 % 16 = 0 ∧ 24 ≤ r.2 ∧ r.1 + r.2 ≤ 2 ^ 47
  apart : st.maps.Pairwise fun r r' => Disjoint₂ r.1 r.2 r'.1 r'.2
  clear : st.heapHead ≠ 0 → ∀ r ∈ st.maps, Disjoint₂ st.heapBase (st.heapEnd - st.heapBase) r.1 r.2

/-- At `lo` stands a header of `k` bytes with `n` bytes behind it. -/
def Region (st : Malloc) (slots : List Slot) (lo k n : Nat) : Prop :=
  (k = 32 ∧ ∃ f, (lo, ⟨n, f⟩) ∈ places Slot.span st.heapBase slots) ∨
    (k = 24 ∧ (lo, n + 24) ∈ st.maps)

/-- From `p` on there are `n` bytes for a caller. -/
def Room (st : Malloc) (slots : List Slot) (p n : Nat) : Prop :=
  (∃ lo, (lo, ⟨n, false⟩) ∈ places Slot.span st.heapBase slots ∧ p = lo + 32) ∨
    (∃ lo, (lo, n + 24) ∈ st.maps ∧ p = lo + 24)

/-- All rooms but the one at `p` are still there, with what is in them. -/
def KeepsBut (p : Nat) (st : Malloc) (slots : List Slot) (st' : Malloc) (slots' : List Slot) :
    Prop :=
  ∀ q n, Room st slots q n → q ≠ p →
    Room st' slots' q n ∧ ∀ x, q ≤ x → x < q + n → st'.mem x = st.mem x

section Rooms

variable {st st1 st2 : Malloc} {slots slots1 slots2 : List Slot} {p q n n' lo lo' k k' : Nat}

theorem KeepsBut.refl : KeepsBut p st slots st slots := fun _ _ h _ => ⟨h, fun _ _ _ => rfl⟩

/-- A second call may change another room, if that was not there before the first. -/
theorem KeepsBut.trans_fresh (h1 : KeepsBut p st slots st1 slots1)
    (h2 : KeepsBut q st1 slots1 st2 slots2) (hq : ∀ n, Room st slots q n → q = p) :
    KeepsBut p st slots st2 slots2 := by
  intro r n hr hne
  obtain ⟨hroom1, hbytes1⟩ := h1 r n hr hne
  obtain ⟨hroom2, hbytes2⟩ := h2 r n hroom1 (by rintro rfl; exact hne (hq n hr))
  exact ⟨hroom2, fun x hx hx' => (hbytes2 x hx hx').trans (hbytes1 x hx hx')⟩

theorem KeepsBut.trans (h1 : KeepsBut p st slots st1 slots1)
    (h2 : KeepsBut p st1 slots1 st2 slots2) : KeepsBut p st slots st2 slots2 :=
  h1.trans_fresh h2 fun _ _ => rfl

theorem KeepsBut.mono (h : KeepsBut 0 st slots st1 slots1) (hpos : ∀ n, ¬ Room st slots 0 n)
    (p : Nat) : KeepsBut p st slots st1 slots1 := by
  intro q n hq _
  refine h q n hq ?_
  rintro rfl
  exact hpos n hq

theorem Room.region (h : Room st slots p n) : ∃ lo k, Region st slots lo k n ∧ p = lo + k := by
  rcases h with ⟨lo, hlo, rfl⟩ | ⟨lo, hlo, rfl⟩
  · exact ⟨lo, 32, .inl ⟨rfl, false, hlo⟩, rfl⟩
  · exact ⟨lo, 24, .inr ⟨rfl, hlo⟩, rfl⟩

section Facts

variable (h : Rep st slots)

include h

/-- Where there is a slot, there is a heap. -/
theorem Rep.laid {s : Slot} (hs : (lo, s) ∈ places Slot.span st.heapBase slots) :
    st.heapHead ≠ 0 ∧ Laid st.mem st.heapBase st.heapEnd slots := by
  rcases h.heap with ⟨-, rfl⟩ | ⟨hhead, hlaid⟩
  · cases hs
  · exact ⟨by rw [hhead]; exact hlaid.pos.ne', hlaid⟩

theorem Rep.region_bounds (hr : Region st slots lo k n) :
    0 < lo ∧ (lo + k) % 8 = 0 ∧ 24 ≤ k ∧ lo + k + n ≤ 2 ^ 47 := by
  rcases hr with ⟨rfl, f, hs⟩ | ⟨rfl, hr⟩
  · have hplace := (h.laid hs).2.place hs
    dsimp only at hplace
    exact ⟨by omega, by omega, by omega, by omega⟩
  · have hmap := h.maps _ hr
    exact ⟨by omega, by omega, by omega, by omega⟩

/-- Two regions are the same one, or do not meet. -/
theorem Rep.regions_apart (hr : Region st slots lo k n) (hr' : Region st slots lo' k' n') :
    (lo = lo' ∧ k = k' ∧ n = n') ∨ Disjoint₂ lo (k + n) lo' (k' + n') := by
  -- a slot and a mapping do not meet, since the mapping does not meet the heap
  have hmixed : ∀ lo n lo' n' f, (lo, ⟨n, f⟩) ∈ places Slot.span st.heapBase slots →
      (lo', n' + 24) ∈ st.maps → Disjoint₂ lo (32 + n) lo' (24 + n') := by
    intro lo n lo' n' f hs hm
    obtain ⟨hhead, hlaid⟩ := h.laid hs
    have hplace := hlaid.place hs
    have hclear := h.clear hhead _ hm
    dsimp only at hplace hclear
    omega
  rcases hr with ⟨rfl, f, hs⟩ | ⟨rfl, hm⟩ <;> rcases hr' with ⟨rfl, f', hs'⟩ | ⟨rfl, hm'⟩
  · rcases places_apart hs hs' with heq | hlt | hlt
    · obtain ⟨rfl, hslot⟩ := Prod.mk.inj heq
      exact .inl ⟨rfl, rfl, congrArg Slot.length hslot⟩
    · exact .inr (.inl hlt)
    · exact .inr (.inr hlt)
  · exact .inr (hmixed lo n lo' n' f hs hm')
  · exact .inr (hmixed lo' n' lo n f' hs' hm).symm
  by_cases heq : (lo, n + 24) = (lo', n' + 24)
  · obtain ⟨rfl, hn⟩ := Prod.mk.inj heq
    exact .inl ⟨rfl, rfl, by omega⟩
  have hsymm : Std.Symm fun r r' : Nat × Nat => Disjoint₂ r.1 r.2 r'.1 r'.2 := ⟨fun _ _ h => h.symm⟩
  have hd := h.apart.forall hm hm' heq
  exact .inr (by omega)

theorem Rep.rooms_apart (hp : Room st slots p n) (hq : Room st slots q n') :
    (p = q ∧ n = n') ∨ (p ≠ q ∧ Disjoint₂ p n q n') := by
  obtain ⟨lo, k, hr, rfl⟩ := hp.region
  obtain ⟨lo', k', hr', rfl⟩ := hq.region
  have hb := h.region_bounds hr
  have hb' := h.region_bounds hr'
  rcases h.regions_apart hr hr' with ⟨rfl, rfl, rfl⟩ | hd
  · exact .inl ⟨rfl, rfl⟩
  · exact .inr ⟨by omega, by omega⟩

theorem Rep.room_apart_header (hp : Room st slots p n)
    (hr : Region st slots lo k n') : Disjoint₂ lo k p n := by
  obtain ⟨lo', k', hr', rfl⟩ := hp.region
  rcases h.regions_apart hr hr' with ⟨rfl, rfl, rfl⟩ | hd
  · exact .inl le_rfl
  · omega

theorem Rep.room_bounds (hp : Room st slots p n) : 24 < p ∧ p % 8 = 0 ∧ p + n ≤ 2 ^ 47 := by
  obtain ⟨lo, k, hr, rfl⟩ := hp.region
  have hb := h.region_bounds hr
  exact ⟨by omega, by omega, by omega⟩

theorem Rep.no_room_zero (n : Nat) : ¬ Room st slots 0 n := by
  intro hr
  have := h.room_bounds hr
  omega

/-- A free slot has no room. -/
theorem Rep.not_room_of_free {s : Slot}
    (hs : (lo, s) ∈ places Slot.span st.heapBase slots) (hfree : s.free) :
    ¬ Room st slots (lo + 32) n := by
  intro hr
  have hregion : Region st slots lo 32 s.length := .inl ⟨rfl, s.free, hs⟩
  obtain ⟨lo', k', hr', hp⟩ := hr.region
  have hb := h.region_bounds hr'
  rcases h.regions_apart hregion hr' with ⟨rfl, rfl, -⟩ | hd
  · rcases hr with ⟨lo', hs', hlo'⟩ | ⟨lo', hm, hlo'⟩
    · rcases places_apart hs hs' with heq | hlt | hlt
      · rw [(Prod.mk.inj heq).2] at hfree
        cases hfree
      · have := s.le_span
        omega
      · have := (⟨n, false⟩ : Slot).le_span
        omega
    · have hd := h.regions_apart hregion (.inr ⟨rfl, hm⟩)
      omega
  · omega

theorem Rep.map_region {r : Nat × Nat} (hr : r ∈ st.maps) : Region st slots r.1 24 (r.2 - 24) :=
  .inr ⟨rfl, by rwa [Nat.sub_add_cancel (h.maps r hr).2.2.1]⟩

/-- The heap is where its headers are. -/
theorem Rep.heap_congr {m' : ByteMem}
    (hm : ∀ lo n', Region st slots lo 32 n' → ∀ x, lo ≤ x → x < lo + 32 → m' x = st.mem x) :
    (st.heapHead = 0 ∧ slots = []) ∨
      (st.heapHead = st.heapBase ∧ Laid m' st.heapBase st.heapEnd slots) := by
  rcases h.heap with hnone | ⟨hhead, hlaid⟩
  · exact .inl hnone
  · exact .inr ⟨hhead, hlaid.congr fun y s hy => hm y s.length (.inl ⟨rfl, s.free, hy⟩)⟩

/-- A caller writes into its room. -/
theorem Rep.scribble {m' : ByteMem} (hp : Room st slots p n)
    (hm : ∀ x, x < p ∨ p + n ≤ x → m' x = st.mem x) :
    Rep { st with mem := m' } slots ∧ KeepsBut p st slots { st with mem := m' } slots := by
  -- headers are not in the room
  have hheader : ∀ lo k n', Region st slots lo k n' → ∀ x, lo ≤ x → x < lo + k →
      m' x = st.mem x := by
    intro lo k n' hr x hx hx'
    have := h.room_apart_header hp hr
    exact hm x (by omega)
  refine ⟨{ h with
    heap := h.heap_congr fun lo => hheader lo 32
    large := h.large.congr fun r hr => hheader r.1 24 _ (h.map_region hr) }, ?_⟩
  intro q n' hq hne
  refine ⟨hq, fun x hx hx' => hm x ?_⟩
  rcases h.rooms_apart hp hq with ⟨rfl, -⟩ | ⟨-, hd⟩
  · exact absurd rfl hne
  · omega

end Facts

end Rooms

/-! ## Changes of the heap -/

/-- The heap is in another layout; the rooms but `p` are kept. -/
structure Stage (p : Nat) (st : Malloc) (slots : List Slot) (st' : Malloc) (slots' : List Slot) :
    Prop where
  rep : Rep st' slots'
  keeps : KeepsBut p st slots st' slots'
  head : st'.heapHead = st.heapHead
  base : st'.heapBase = st.heapBase
  maps : st'.maps = st.maps

section Stages

variable {st st1 st2 : Malloc} {slots slots1 slots2 l1 l2 mid mid' : List Slot} {s t : Slot}
  {p a n size : Nat}

theorem Rep.stage_refl (h : Rep st slots) : Stage p st slots st slots :=
  ⟨h, KeepsBut.refl, rfl, rfl, rfl⟩

theorem Stage.trans (h1 : Stage p st slots st1 slots1) (h2 : Stage p st1 slots1 st2 slots2) :
    Stage p st slots st2 slots2 where
  rep := h2.rep
  keeps := h1.keeps.trans h2.keeps
  head := h2.head.trans h1.head
  base := h2.base.trans h1.base
  maps := h2.maps.trans h1.maps

/-- A reshaped heap, with its new end, is a stage. -/
theorem Rep.stage (h : Rep st slots) (hhead : st.heapHead ≠ 0)
    (hst : st1 = { st with mem := st1.mem, heapEnd := st1.heapEnd })
    (hr : Reshape st.mem st1.mem st.heapBase st1.heapEnd slots1)
    (hclear : ∀ r ∈ st.maps, Disjoint₂ st.heapBase (st1.heapEnd - st.heapBase) r.1 r.2)
    (hused : ∀ y n, (y, ⟨n, false⟩) ∈ places Slot.span st.heapBase slots → y + 32 ≠ p →
      (y, ⟨n, false⟩) ∈ places Slot.span st.heapBase slots1) : Stage p st slots st1 slots1 := by
  generalize st1.mem = m, st1.heapEnd = e at *
  subst hst
  -- the mappings lie outside the heap
  have hout : ∀ r ∈ st.maps, ∀ x, r.1 ≤ x → x < r.1 + r.2 → m x = st.mem x := by
    intro r hmem x hx hx'
    have := hclear r hmem
    exact hr.outside (by omega)
  refine ⟨{ h with heap := .inr ⟨?_, hr.laid⟩, large := ?_, clear := fun _ => hclear }, ?_,
    rfl, rfl, rfl⟩
  · rcases h.heap with ⟨h0, -⟩ | ⟨hb, -⟩
    · exact absurd h0 hhead
    · exact hb
  · apply h.large.congr
    intro r hmem x hx hx'
    have := h.maps r hmem
    exact hout r hmem x hx (by omega)
  intro q n hq hne
  rcases hq with ⟨y, hy, rfl⟩ | ⟨lo, hlo, rfl⟩
  · have hy' := hused y n hy hne
    refine ⟨.inl ⟨y, hy', rfl⟩, fun x hx hx' => hr.payload hy' hx ?_⟩
    show x < y + (32 + n)
    omega
  · exact ⟨.inr ⟨lo, hlo, rfl⟩, fun x hx hx' => hout _ hlo x (by omega) (by simp; omega)⟩

/-- As `Rep.stage`, for a stretch that is replaced in a heap that keeps its end. -/
theorem Rep.stage_cut (h : Rep st (l1 ++ mid ++ l2)) (hst : st1 = { st with mem := st1.mem })
    (hr : Reshape st.mem st1.mem st.heapBase st.heapEnd (l1 ++ mid' ++ l2))
    (hmid : mid ≠ [])
    (hused : ∀ y n, (y, ⟨n, false⟩) ∈
      places Slot.span (st.heapBase + extent Slot.span l1) mid → y + 32 ≠ p →
      (y, ⟨n, false⟩) ∈ places Slot.span (st.heapBase + extent Slot.span l1) mid') :
    Stage p st (l1 ++ mid ++ l2) st1 (l1 ++ mid' ++ l2) := by
  obtain ⟨hhead, hlaid⟩ : st.heapHead ≠ 0 ∧
      Laid st.mem st.heapBase st.heapEnd (l1 ++ mid ++ l2) := by
    rcases h.heap with ⟨-, h0⟩ | ⟨hb, hlaid⟩
    · simp [hmid] at h0
    · exact ⟨by rw [hb]; exact hlaid.pos.ne', hlaid⟩
  have hext : extent Slot.span mid' = extent Slot.span mid := by
    have h1 := hlaid.end_eq
    have h2 := hr.laid.end_eq
    simp only [extent_append] at h1 h2
    omega
  have hend : st1.heapEnd = st.heapEnd := by rw [hst]
  refine h.stage hhead (by rw [hend]; exact hst) (by rwa [hend]) ?_ ?_
  · rw [hend]
    exact h.clear hhead
  intro y n hy hne
  rw [places_append, places_append, extent_append] at hy ⊢
  rw [hext]
  rcases mem_append.mp hy with hy | hy
  · rcases mem_append.mp hy with hy | hy
    · exact mem_append_left _ (mem_append_left _ hy)
    · exact mem_append_left _ (mem_append_right _ (hused y n hy hne))
  · exact mem_append_right _ hy

/-- The room of a used slot is the one that may go. -/
theorem singleton_goes {b : Nat} (ha : a = b) (hp : s.free = false → p = a + 32) :
    ∀ y n, (y, ⟨n, false⟩) ∈ places Slot.span b [s] → y + 32 ≠ p →
      (y, ⟨n, false⟩) ∈ places Slot.span b mid' := by
  intro y n hy hne
  obtain ⟨rfl, rfl⟩ := Prod.mk.inj (mem_singleton.mp hy)
  exact absurd (by rw [hp rfl, ha]) hne

/-- The slot that is split keeps its start. -/
theorem Rep.split (h : Rep st (l1 ++ s :: l2)) (ha : a = st.heapBase + extent Slot.span l1)
    (hsize : size ≤ s.length) (hmod : size % 16 = 0) (hp : s.free = false → p = a + 32) :
    ∃ s' r, Stage p st (l1 ++ s :: l2) (st.splitSegment a size) (l1 ++ s' :: (r ++ l2)) ∧
      s'.free = s.free ∧ size ≤ s'.length ∧ r.length ≤ 1 ∧
      ∀ x, a + 32 ≤ x → x < a + s'.span → (st.splitSegment a size).mem x = st.mem x := by
  obtain ⟨-, hlaid⟩ := h.laid (place_at st.heapBase l1 s l2)
  obtain ⟨s', r, hr, hfree, hle, hlen⟩ := splitSegment_reshapes ha hlaid hsize hmod
  have hplace : (a, s') ∈ places Slot.span st.heapBase (l1 ++ (s' :: r) ++ l2) := by
    rw [ha]
    simpa using place_at st.heapBase l1 s' (r ++ l2)
  refine ⟨s', r, ?_, hfree, hle, hlen, fun x => hr.payload hplace⟩
  have hst : st.splitSegment a size = { st with mem := (st.splitSegment a size).mem } := by
    unfold splitSegment setPrev
    dsimp only
    split
    · rfl
    · split <;> rfl
  have hcut : Rep st (l1 ++ [s] ++ l2) := by simpa using h
  simpa using hcut.stage_cut hst hr (by simp) (singleton_goes ha hp)

/-- A slot is marked. -/
theorem Rep.mark {v : Nat} {f : Bool} (h : Rep st (l1 ++ s :: l2))
    (ha : a = st.heapBase + extent Slot.span l1) (hv : v = if f then 1 else 0)
    (hp : s.free = false → p = a + 32) :
    Stage p st (l1 ++ s :: l2) (st.setSeg a fun h => { h with free := v })
      (l1 ++ ⟨s.length, f⟩ :: l2) := by
  obtain ⟨-, hlaid⟩ := h.laid (place_at st.heapBase l1 s l2)
  have hcut : Rep st (l1 ++ [s] ++ l2) := by simpa using h
  simpa using hcut.stage_cut rfl (setFree_reshapes ha hlaid hv) (by simp) (singleton_goes ha hp)

/-- A free slot takes over the free slot behind it. -/
theorem Rep.join {c : Nat} (h : Rep st (l1 ++ s :: t :: l2))
    (ha : a = st.heapBase + extent Slot.span l1) (hc : c = a + s.span) (hs : s.free) (ht : t.free) :
    Stage p st (l1 ++ s :: t :: l2) (st.absorb a c) (l1 ++ ⟨s.length + t.span, true⟩ :: l2) := by
  obtain ⟨-, hlaid⟩ := h.laid (place_at st.heapBase l1 s (t :: l2))
  have hcut : Rep st (l1 ++ [s, t] ++ l2) := by simpa using h
  have hst : st.absorb a c = { st with mem := (st.absorb a c).mem } := by
    unfold absorb setPrev
    dsimp only
    split <;> rfl
  have hstage := hcut.stage_cut (p := p) hst (absorb_reshapes ha hlaid hc) (by simp) ?_
  · simpa [hs] using hstage
  intro y n hy _
  -- both slots are free
  simp only [places, mem_cons, not_mem_nil, or_false, Prod.mk.injEq] at hy
  rcases hy with ⟨-, rfl⟩ | ⟨-, rfl⟩
  · cases hs
  · cases ht

/-! ### Taking a slot -/

/-- What `brk` may do to a heap that starts at `base`. -/
def BrkGrows (sys : Sys) (st : Malloc) (base : Nat) : Prop :=
  ∀ x, sys.brk x = x → 0 < base ∧ base % 4096 = 0 ∧ base ≤ x ∧ x ≤ 2 ^ 47 ∧
    ∀ r ∈ st.maps, Disjoint₂ base (x - base) r.1 r.2

/-- A free slot of the heap becomes a room of at least `size` bytes. -/
theorem Rep.take (h : Rep st (l1 ++ s :: l2)) (ha : a = st.heapBase + extent Slot.span l1)
    (hfree : s.free) (hsize : size ≤ s.length) (hmod : size % 16 = 0) :
    ∃ slots1 n, Stage 0 st (l1 ++ s :: l2)
        ((st.splitSegment a size).setSeg a fun h => { h with free := 0 }) slots1 ∧
      size ≤ n ∧ Room ((st.splitSegment a size).setSeg a fun h => { h with free := 0 }) slots1
        (a + 32) n ∧ slots1.length ≤ (l1 ++ s :: l2).length + 1 := by
  obtain ⟨s', r, hstage, hfree', hle, hlen, -⟩ := h.split (p := 0) ha hsize hmod (by simp [hfree])
  have ha' : a = (st.splitSegment a size).heapBase + extent Slot.span l1 := by
    rw [hstage.base, ha]
  have hmark := hstage.rep.mark (p := 0) (v := 0) (f := false) ha' rfl (by simp [hfree', hfree])
  refine ⟨_, s'.length, hstage.trans hmark, hle, .inl ⟨a, ?_, rfl⟩, ?_⟩
  · rw [hmark.base, hstage.base, ha]
    exact place_at _ l1 ⟨s'.length, false⟩ _
  · simp only [length_append, length_cons]
    omega

theorem alignUp16_spec (h : n + 15 < 2 ^ 64) :
    n ≤ alignUp16 n ∧ alignUp16 n % 16 = 0 ∧ alignUp16 n < n + 16 := by
  unfold alignUp16
  rw [Nat.mod_eq_of_lt h]
  omega

/-- The heap grows, and then it has a free slot of at least `g` bytes at its end. -/
theorem growAfter_spec {sys : Sys} {g : Nat} (h : Rep st (l1 ++ [s]))
    (ha : a = st.heapBase + extent Slot.span l1) (hbrk : BrkGrows sys st st.heapBase)
    (hg : g % 16 = 0) : st.growAfter sys g a = none ∨
      ∃ st1 c k1 t, st.growAfter sys g a = some (st1, c) ∧
        Stage 0 st (l1 ++ [s]) st1 (k1 ++ [t]) ∧ c = st.heapBase + extent Slot.span k1 ∧
        t.free ∧ g ≤ t.length ∧ (k1 ++ [t]).length ≤ (l1 ++ [s]).length + 1 := by
  obtain ⟨hhead, hlaid⟩ := h.laid (place_at st.heapBase l1 s [])
  obtain ⟨p, hread⟩ := hlaid.header
  rw [← ha, HeaderAt] at hread
  unfold growAfter
  simp only [hread, and_true]
  by_cases hs : s.free
  · -- the last slot is free and is extended
    rw [if_pos (by simp [hs])]
    split
    · exact .inl rfl
    rename_i hok
    obtain ⟨-, -, -, htop, hclear⟩ := hbrk _ (not_not.mp hok)
    refine .inr ⟨_, a, l1, ⟨s.length + g, s.free⟩, rfl, ?_, ha, hs, Nat.le_add_left _ _, by simp⟩
    refine h.stage hhead rfl (extend_reshapes ha hlaid hg htop) hclear ?_
    intro y n hy _
    rw [places_append] at hy ⊢
    rcases mem_append.mp hy with hy | hy
    · exact mem_append_left _ hy
    · obtain ⟨-, rfl⟩ := Prod.mk.inj (mem_singleton.mp hy)
      cases hs
  -- a new slot behind it
  rw [if_neg (by simp [hs])]
  split
  · exact .inl rfl
  rename_i hok
  obtain ⟨-, -, -, htop, hclear⟩ := hbrk _ (not_not.mp hok)
  have hend := hlaid.end_eq
  refine .inr ⟨_, st.heapEnd, l1 ++ [s], ⟨g, true⟩, rfl, ?_, hend, rfl, le_rfl, by simp⟩
  have hr := append_reshapes ha hlaid hg htop
  refine h.stage hhead rfl (by simpa [heapSegSize] using hr) hclear ?_
  intro y n hy _
  rw [places_append]
  exact mem_append_left _ hy

theorem segmentFor_spec {sys : Sys} (h : Rep st slots) (hhead : st.heapHead ≠ 0)
    (hbrk : BrkGrows sys st st.heapBase) (hsize : size < 2 ^ 32) (hn : slots.length ≤ n) :
    st.segmentFor sys n size = none ∨ ∃ st1 c k1 t k2, st.segmentFor sys n size = some (st1, c) ∧
        Stage 0 st slots st1 (k1 ++ t :: k2) ∧ c = st.heapBase + extent Slot.span k1 ∧
        t.free ∧ size ≤ t.length ∧ (k1 ++ t :: k2).length ≤ slots.length + 1 := by
  rcases h.heap with ⟨h0, -⟩ | ⟨hb, hlaid⟩
  · exact absurd h0 hhead
  obtain ⟨p, hc⟩ := hlaid.chain
  have hne := hlaid.nonempty
  have hstart : link st.heapEnd st.heapBase = st.heapHead := by
    have hend := hlaid.end_eq
    rw [hb]
    apply link_of_ne
    cases slots with
    | nil => exact absurd rfl hne
    | cons s l =>
      have := s.le_span
      simp only [extent] at hend
      omega
  unfold segmentFor
  rcases findFreeSegment_spec hc hlaid.pos hn size with h0 | ⟨l1, s, l2, rfl, hf, hle, hat⟩
  · -- nothing found: the heap has to grow
    rw [hstart] at h0
    rw [if_neg (by simp [h0])]
    obtain ⟨l1, s, rfl, hlast⟩ := lastSegment_spec hc hlaid.pos hn hne
    rw [← hb] at hlast
    rw [hlast, hb]
    obtain ⟨hle, hmod, -⟩ := alignUp16_spec (n := max size 4096) (by omega)
    rcases growAfter_spec h rfl hbrk hmod with hnone | ⟨st1, c, k1, t, heq, hst, hc, ht, hg, hlen⟩
    · exact .inl hnone
    · exact .inr ⟨st1, c, k1, t, [], heq, hst, hc, ht, by omega, hlen⟩
  · rw [hstart] at hat
    rw [hat, if_pos (by omega)]
    exact .inr ⟨st, _, l1, s, l2, rfl, h.stage_refl, rfl, hf, hle, by simp⟩

end Stages

/-! ## `malloc` -/

/-- What is assumed of `brk` and `mmap`: the heap grows contiguously, a mapping is a range that
nobody uses, and both start at a page. -/
def SysOk (sys : Sys) (st : Malloc) : Prop :=
  BrkGrows sys st (if st.heapHead = 0 then sys.brk 0 else st.heapBase) ∧
    ∀ n a, sys.mmap n = some a → 0 < a ∧ a % 4096 = 0 ∧ a + n ≤ 2 ^ 47 ∧
      (∀ r ∈ st.maps, Disjoint₂ a n r.1 r.2) ∧
      (st.heapHead ≠ 0 → Disjoint₂ st.heapBase (st.heapEnd - st.heapBase) a n)

/-- A call that hands out `size` bytes, or the null pointer. -/
structure Allocated (st : Malloc) (slots : List Slot) (size : Nat) (res : Malloc × Nat)
    (slots' : List Slot) : Prop where
  rep : Rep res.1 slots'
  keeps : KeepsBut 0 st slots res.1 slots'
  room : res.2 ≠ 0 → ∃ n, size ≤ n ∧ Room res.1 slots' res.2 n
  fresh : ∀ n, ¬ Room st slots res.2 n
  slots_le : slots'.length ≤ slots.length + 3
  maps_le : res.1.maps.length ≤ st.maps.length + 1

section Allocation

variable {st : Malloc} {slots : List Slot} {sys : Sys} {size n : Nat}

section

variable (h : Rep st slots)

include h

/-- Nothing was handed out and nothing has changed. -/
theorem Rep.allocated_none : Allocated st slots size (st, 0) slots where
  rep := h
  keeps := KeepsBut.refl
  room h0 := absurd rfl h0
  fresh := h.no_room_zero
  slots_le := by omega
  maps_le := by simp

theorem heapLazyInit_spec (hsys : SysOk sys st) :
    ∃ slots', Rep (st.heapLazyInit sys) slots' ∧ KeepsBut 0 st slots (st.heapLazyInit sys) slots' ∧
      (st.heapLazyInit sys).maps = st.maps ∧ slots'.length ≤ slots.length + 1 ∧
      ((st.heapLazyInit sys).heapHead ≠ 0 →
        BrkGrows sys (st.heapLazyInit sys) (st.heapLazyInit sys).heapBase) := by
  unfold heapLazyInit
  split
  · rename_i hhead
    have hbrk := hsys.1
    rw [if_neg hhead] at hbrk
    exact ⟨slots, h, KeepsBut.refl, rfl, by omega, fun _ => hbrk⟩
  rename_i hhead
  have hhead : st.heapHead = 0 := not_not.mp hhead
  have hbrk := hsys.1
  rw [if_pos hhead] at hbrk
  obtain rfl : slots = [] := by
    rcases h.heap with ⟨-, h0⟩ | ⟨hb, hlaid⟩
    · exact h0
    · have := hlaid.pos
      omega
  -- without slots, rooms are mappings
  have hrooms : ∀ q n, Room st [] q n → ∃ lo, (lo, n + 24) ∈ st.maps ∧ q = lo + 24 := by
    rintro q n (⟨lo, hlo, -⟩ | hr)
    · cases hlo
    · exact hr
  dsimp only
  split
  · refine ⟨[], { h with heap := .inl ⟨hhead, rfl⟩, clear := fun h0 => absurd hhead h0 },
      ?_, rfl, by omega, fun h0 => absurd hhead h0⟩
    intro q n hq _
    exact ⟨.inr (hrooms q n hq), fun _ _ _ => rfl⟩
  rename_i hok
  obtain ⟨hpos, hpage, hle, htop, hclear⟩ := hbrk _ (not_not.mp hok)
  generalize sys.brk 0 = base at *
  have hnew : (base + 0x20000) % 2 ^ 64 = base + 0x20000 := Nat.mod_eq_of_lt (by omega)
  rw [hnew] at hclear htop ⊢
  generalize hst1 : setSeg _ base _ = st1
  have hmem : ∀ x, (x < base ∨ base + 32 ≤ x) → st1.mem x = st.mem x := by
    intro x hx
    rw [← hst1, setSeg_of_outside hx]
  have hheader : HeaderAt st1.mem base 0 0 ⟨0x20000 - 32, true⟩ := by
    rw [← hst1]
    exact HeaderAt.set rfl (by decide) (by decide) (by decide)
  have hspan : (⟨0x20000 - 32, true⟩ : Slot).span = 0x20000 := rfl
  have hlaid : Laid st1.mem base (base + 0x20000) [⟨0x20000 - 32, true⟩] := by
    refine ⟨⟨base, ?_, rfl, ?_⟩, by simp, hpos, by omega, htop, by simp⟩
    · rw [hspan, link_self]
      exact hheader
    · rw [hspan]
  have hlarge : LargeList st1.mem st.maps := by
    apply h.large.congr
    intro r hr x hx hx'
    have := hclear r hr
    have := h.maps r hr
    exact hmem x (by omega)
  obtain ⟨hb, he, hh, hl, hm⟩ : st1.heapBase = base ∧ st1.heapEnd = base + 0x20000 ∧
      st1.heapHead = base ∧ st1.largeAllocList = st.largeAllocList ∧ st1.maps = st.maps := by
    rw [← hst1]
    exact ⟨rfl, rfl, rfl, rfl, rfl⟩
  refine ⟨[⟨0x20000 - 32, true⟩], ⟨?_, ?_, ?_, ?_, ?_, ?_⟩, ?_, hm, by simp, ?_⟩
  · exact .inr ⟨by rw [hh, hb], by rwa [hb, he]⟩
  · rw [hl, hm, h.list]
  · rwa [hm]
  · rw [hm]
    exact h.maps
  · rw [hm]
    exact h.apart
  · intro _
    rwa [hm, hb, he]
  · intro q n hq _
    obtain ⟨lo, hlo, rfl⟩ := hrooms q n hq
    refine ⟨.inr ⟨lo, by rwa [hm], rfl⟩, fun x hx hx' => hmem x ?_⟩
    have := hclear _ hlo
    omega
  · intro _ x hx
    rw [hb, hm]
    exact hbrk x hx

theorem mallocSmall_allocates (hsys : SysOk sys st) (hpos : 0 < size)
    (hsize : size < largeAllocThreshold) (hn : slots.length + 3 ≤ n) :
    ∃ slots', Allocated st slots size (st.mallocSmall sys n size) slots' := by
  obtain ⟨slots1, hrep, hkeeps, hmaps, hlen, hbrk⟩ := heapLazyInit_spec h hsys
  unfold mallocSmall
  dsimp only
  generalize st.heapLazyInit sys = st1 at *
  unfold largeAllocThreshold at hsize
  obtain ⟨hle, hmod, hlt⟩ := alignUp16_spec (n := size) (by omega)
  have hnone : Allocated st slots size (st1, 0) slots1 :=
    ⟨hrep, hkeeps, fun h0 => absurd rfl h0, h.no_room_zero, by omega, by simp [hmaps]⟩
  split
  · exact ⟨slots1, hnone⟩
  rename_i hhead
  have hmax : max (alignUp16 size) minAllocSize % 16 = 0 := by
    unfold minAllocSize
    omega
  have hmax' : max (alignUp16 size) minAllocSize < 2 ^ 32 := by
    unfold minAllocSize
    omega
  rcases segmentFor_spec (n := n) hrep hhead (hbrk hhead) hmax' (by omega) with
    hno | ⟨st2, c, k1, t, k2, heq, hstage, hc, ht, hfit, hlen2⟩
  · rw [hno]
    exact ⟨slots1, hnone⟩
  rw [heq]
  have hc' : c = st2.heapBase + extent Slot.span k1 := by rw [hstage.base, hc]
  obtain ⟨slots3, n3, htake, hn3, hroom, hlen3⟩ := hstage.rep.take hc' ht hfit hmax
  have hall : KeepsBut 0 st slots _ slots3 := hkeeps.trans (hstage.keeps.trans htake.keeps)
  refine ⟨slots3, htake.rep, hall, fun _ => ⟨n3, by omega, hroom⟩, ?_, by omega, ?_⟩
  · -- at that place there was no room before
    intro k hk
    obtain ⟨hk', -⟩ := (hkeeps.trans hstage.keeps) _ _ hk (show c + 32 ≠ 0 by omega)
    have hplace : (c, t) ∈ places Slot.span st2.heapBase (k1 ++ t :: k2) := by
      rw [hc']
      exact place_at st2.heapBase k1 t k2
    exact hstage.rep.not_room_of_free hplace ht hk'
  · have hlist := congrArg List.length (htake.maps.trans (hstage.maps.trans hmaps))
    exact hlist.le.trans (Nat.le_succ _)

theorem mallocLarge_allocates (hsys : SysOk sys st) (hsize : size + 24 < 2 ^ 64) :
    ∃ slots', Allocated st slots size (st.mallocLarge sys size) slots' := by
  unfold mallocLarge largeSegSize
  rw [Nat.mod_eq_of_lt hsize]
  dsimp only
  split
  · exact ⟨slots, h.allocated_none⟩
  rename_i a hmap
  obtain ⟨hpos, hpage, htop, hmaps, hheap⟩ := hsys.2 _ _ hmap
  -- the new range does not meet anything
  have hregion : ∀ lo k n', Region st slots lo k n' → Disjoint₂ a (size + 24) lo (k + n') := by
    rintro lo k n' (⟨rfl, f, hs⟩ | ⟨rfl, hm⟩)
    · obtain ⟨hhead, hlaid⟩ := h.laid hs
      have hplace := hlaid.place hs
      dsimp only at hplace
      omega
    · have := hmaps _ hm
      omega
  have hmem : ∀ lo k n', Region st slots lo k n' → ∀ x, lo ≤ x → x < lo + k + n' →
      putLargeSeg st.mem a ⟨a + 24, size, st.largeAllocList⟩ x = st.mem x := by
    intro lo k n' hr x hx hx'
    have := hregion lo k n' hr
    exact putLargeSeg_of_outside (by omega)
  have hlist : st.largeAllocList < 2 ^ 64 := by
    rw [h.list]
    cases hl : st.maps with
    | nil => decide
    | cons r l =>
      have := h.maps r (by simp [hl])
      show r.1 < 2 ^ 64
      omega
  refine ⟨slots, ⟨?_, ?_, ?_, ?_, ?_, ?_⟩, ?_, ?_, ?_, by omega, by simp⟩
  · exact h.heap_congr fun lo n' hr x hx hx' => hmem lo 32 n' hr x hx (by omega)
  · rfl
  · refine ⟨?_, ?_⟩
    · rw [largeSeg_put (show a + 24 < _ by omega) (show size < _ by omega) hlist, h.list,
        Nat.add_sub_cancel]
    · refine h.large.congr fun r hr x hx hx' => hmem _ _ _ (h.map_region hr) x hx ?_
      omega
  · intro r hr
    rcases mem_cons.mp hr with rfl | hr
    · exact ⟨hpos, by dsimp only; omega, by simp, htop⟩
    · exact h.maps r hr
  · exact pairwise_cons.mpr ⟨hmaps, h.apart⟩
  · intro hhead r hr
    rcases mem_cons.mp hr with rfl | hr
    · exact hheap hhead
    · exact h.clear hhead r hr
  · intro q k hq _
    obtain ⟨lo, k', hr, rfl⟩ := hq.region
    refine ⟨?_, fun x hx hx' => hmem lo k' k hr x (by omega) (by omega)⟩
    rcases hq with hs | ⟨lo', hm, hlo'⟩
    · exact .inl hs
    · exact .inr ⟨lo', mem_cons_of_mem _ hm, hlo'⟩
  · exact fun _ => ⟨size, le_rfl, .inr ⟨a, mem_cons_self, rfl⟩⟩
  intro k hk
  obtain ⟨lo, k', hr, hp⟩ := hk.region
  have hb := h.region_bounds hr
  have := hregion lo k' k hr
  omega

theorem malloc_allocates (hsys : SysOk sys st) (hsize : size + 24 < 2 ^ 64)
    (hn : slots.length + 3 ≤ n) :
    ∃ slots', Allocated st slots size (st.malloc sys n size) slots' := by
  unfold malloc
  split
  · exact ⟨slots, h.allocated_none⟩
  split
  · exact mallocLarge_allocates h hsys hsize
  · exact mallocSmall_allocates h hsys (by omega) (by omega) hn

end

end Allocation

/-! ## `free` -/

/-- The block of `k` bytes at `p` is not in use any more: it lies in a free slot, or its mapping is
gone. -/
def Returned (p k : Nat) (st st' : Malloc) (slots' : List Slot) : Prop :=
  (∃ y t, (y, t) ∈ places Slot.span st'.heapBase slots' ∧ t.free = true ∧ y + 32 ≤ p ∧
    p + k ≤ y + t.span) ∨
  (∃ lo, p = lo + 24 ∧ (lo, k + 24) ∈ st.maps ∧ (lo, k + 24) ∉ st'.maps)

section Free

variable {st : Malloc} {slots l1 l2 : List Slot} {s t : Slot} {p a b k n : Nat}

theorem mergeable_eq {q r : Nat} (h : HeaderAt st.mem b q r t) (hb : 0 < b) :
    st.mergeable b = t.free := by
  unfold mergeable
  rw [h]
  cases t.free <;> simp [hb.ne']

section

variable (h : Rep st (l1 ++ s :: l2)) (ha : a = st.heapBase + extent Slot.span l1) (hs : s.free)

include h ha hs

/-- `combine_segments` with the segment behind. -/
theorem Rep.joinNext : ∃ t k2, Stage p st (l1 ++ s :: l2)
        (if st.mergeable (heapSeg st.mem a).next then st.absorb a (heapSeg st.mem a).next else st)
        (l1 ++ t :: k2) ∧ t.free ∧ s.span ≤ t.span ∧ k2.length ≤ l2.length := by
  obtain ⟨-, hlaid⟩ := h.laid (place_at st.heapBase l1 s l2)
  obtain ⟨q, hread⟩ := hlaid.header
  rw [← ha, HeaderAt] at hread
  rw [hread]
  cases l2 with
  | nil =>
    have hend : a + s.span = st.heapEnd := by
      rw [hlaid.end_eq, ha, extent_append]
      simp [extent, Nat.add_assoc]
    rw [hend, link_self]
    exact ⟨s, [], by simpa [mergeable] using h.stage_refl, hs, le_rfl, le_rfl⟩
  | cons u l2 =>
    have hlaid' : Laid st.mem st.heapBase st.heapEnd ((l1 ++ [s]) ++ u :: l2) := by
      simpa using hlaid
    have hnext : st.heapBase + extent Slot.span (l1 ++ [s]) = a + s.span := by
      rw [extent_append, ha]
      simp [extent, Nat.add_assoc]
    obtain ⟨q', hread'⟩ := hlaid'.header
    have hplace := hlaid'.place (place_at st.heapBase (l1 ++ [s]) u l2)
    rw [hnext] at hread' hplace
    rw [link_of_ne (by omega), mergeable_eq hread' (by omega)]
    by_cases hu : u.free
    · rw [if_pos hu]
      refine ⟨_, l2, h.join ha rfl hs hu, rfl, ?_, by simp⟩
      simp only [Slot.span]
      omega
    · rw [if_neg hu]
      exact ⟨s, u :: l2, h.stage_refl, hs, le_rfl, le_rfl⟩

/-- `combine_segments` with the segment before. -/
theorem Rep.joinPrev : ∃ k1 t, Stage p st (l1 ++ s :: l2)
        (if st.mergeable (heapSeg st.mem a).prev then st.absorb (heapSeg st.mem a).prev a else st)
        (k1 ++ t :: l2) ∧ t.free ∧ st.heapBase + extent Slot.span k1 ≤ a ∧
      a + s.span ≤ st.heapBase + extent Slot.span k1 + t.span ∧ k1.length ≤ l1.length := by
  obtain ⟨-, hlaid⟩ := h.laid (place_at st.heapBase l1 s l2)
  obtain ⟨_, hc⟩ := hlaid.chain
  obtain ⟨q, hc1, hread, -⟩ := chain_append.mp hc
  rw [← ha, HeaderAt] at hread
  rw [hread]
  rcases eq_nil_or_concat l1 with rfl | ⟨l0, u, rfl⟩
  · rw [hc1.1]
    refine ⟨[], s, by simpa [mergeable] using h.stage_refl, hs, ?_, ?_, le_rfl⟩
    · rw [ha]
    · rw [ha]
  -- the segment before starts where the header says
  rw [concat_eq_append] at *
  obtain ⟨q', -, hread', rfl, -⟩ := chain_append.mp hc1
  have hnext : a = st.heapBase + extent Slot.span l0 + u.span := by
    rw [ha, extent_append]
    simp [extent, Nat.add_assoc]
  have hpos := hlaid.pos
  rw [mergeable_eq hread' (by omega)]
  by_cases hu : u.free
  · rw [if_pos hu]
    have h' : Rep st (l0 ++ u :: s :: l2) := by simpa using h
    refine ⟨l0, _, by simpa using h'.join rfl hnext hu hs, rfl, by omega, ?_, by simp⟩
    simp only [Slot.span] at hnext ⊢
    omega
  · rw [if_neg hu]
    exact ⟨l0 ++ [u], s, h.stage_refl, hs, ha.ge, by omega, le_rfl⟩

theorem combineSegments_spec :
    ∃ k1 t k2, Stage p st (l1 ++ s :: l2) (st.combineSegments a) (k1 ++ t :: k2) ∧
      t.free ∧ st.heapBase + extent Slot.span k1 ≤ a ∧
      a + s.span ≤ st.heapBase + extent Slot.span k1 + t.span ∧
      (k1 ++ t :: k2).length ≤ (l1 ++ s :: l2).length := by
  obtain ⟨t, k2, hstage, ht, hspan, hlen⟩ := h.joinNext (p := p) ha hs
  unfold combineSegments
  dsimp only
  generalize (if st.mergeable (heapSeg st.mem a).next then
    st.absorb a (heapSeg st.mem a).next else st) = st1 at *
  have ha1 : a = st1.heapBase + extent Slot.span l1 := by rw [hstage.base, ha]
  obtain ⟨k1, u, hstage', hu, hle, hge, hlen'⟩ := hstage.rep.joinPrev (p := p) ha1 ht
  rw [hstage.base] at hle hge
  refine ⟨k1, u, k2, hstage.trans hstage', hu, hle, by omega, ?_⟩
  simp only [length_append, length_cons]
  omega

end

/-- A used slot is freed. -/
theorem heapFree_returns (h : Rep st slots)
    (hs : (a, ⟨k, false⟩) ∈ places Slot.span st.heapBase slots) :
    ∃ slots', Rep (st.heapFree (a + 32)) slots' ∧
      KeepsBut (a + 32) st slots (st.heapFree (a + 32)) slots' ∧
      Returned (a + 32) k st (st.heapFree (a + 32)) slots' ∧
      slots'.length ≤ slots.length ∧ (st.heapFree (a + 32)).maps = st.maps := by
  obtain ⟨l1, l2, rfl, ha⟩ := place_cut hs
  obtain ⟨-, hlaid⟩ := h.laid hs
  obtain ⟨q, hread⟩ := hlaid.header
  rw [← ha, HeaderAt] at hread
  have hmark := h.mark (p := a + 32) (v := 1) (f := true) ha rfl (fun _ => rfl)
  have ha' : a = (st.setSeg a fun h => { h with free := 1 }).heapBase + extent Slot.span l1 := by
    rw [hmark.base, ha]
  obtain ⟨k1, t, k2, hstage, ht, hle, hge, hlen⟩ :=
    combineSegments_spec (p := a + 32) hmark.rep ha' rfl
  unfold heapFree heapSegSize
  rw [if_neg (by omega), Nat.add_sub_cancel]
  dsimp only
  rw [hread, if_neg (fun h => h rfl), if_neg (by simp)]
  have hall := hmark.trans hstage
  have hspan : a + (32 + k) ≤ st.heapBase + extent Slot.span k1 + t.span := hge
  refine ⟨k1 ++ t :: k2, hall.rep, hall.keeps,
    .inl ⟨st.heapBase + extent Slot.span k1, t, ?_, ht, by omega, by omega⟩, ?_, hall.maps⟩
  · rw [hall.base]
    exact place_at _ k1 t k2
  · simpa using hlen

/-! ### The list of large blocks -/

theorem unlinkLarge_null {cur : Option Nat} : st.unlinkLarge p n cur 0 = none := by
  cases n <;> simp [unlinkLarge]

theorem unlinkLarge_none {l : List (Nat × Nat)} {cur : Option Nat} (hl : LargeList st.mem l)
    (hpos : ∀ r ∈ l, 0 < r.1) (hp : ∀ r ∈ l, r.1 + 24 ≠ p) :
    st.unlinkLarge p n cur (headPtr l) = none := by
  induction l generalizing n cur with
  | nil => exact unlinkLarge_null
  | cons r l ih =>
    cases n with
    | zero => rfl
    | succ n =>
      have hr := hpos r mem_cons_self
      rw [headPtr_cons, unlinkLarge, if_neg (by omega), hl.1, if_neg (hp r mem_cons_self)]
      exact ih hl.2 (fun r' h => hpos r' (mem_cons_of_mem _ h))
        fun r' h => hp r' (mem_cons_of_mem _ h)

/-- Two mappings with one start are the same. -/
theorem eq_of_start {l : List (Nat × Nat)} {r r' : Nat × Nat}
    (hd : l.Pairwise fun r r' => Disjoint₂ r.1 r.2 r'.1 r'.2) (hlen : ∀ r ∈ l, 24 ≤ r.2)
    (hr : r ∈ l) (hr' : r' ∈ l) (heq : r.1 + 24 = r'.1 + 24) : r = r' := by
  by_contra hne
  have hsymm : Std.Symm fun r r' : Nat × Nat => Disjoint₂ r.1 r.2 r'.1 r'.2 := ⟨fun _ _ h => h.symm⟩
  have := hd.forall hr hr' hne
  have := hlen r hr
  have := hlen r' hr'
  omega

/-- The length that is unmapped for a large block is the one that was mapped. -/
theorem largeSize_eq (h : 24 ≤ n) (hn : n < 2 ^ 64) : (n - 24 + largeSegSize) % 2 ^ 64 = n := by
  unfold largeSegSize
  rw [Nat.sub_add_cancel h, Nat.mod_eq_of_lt hn]

/-- A mapping behind `q` is taken out of the list. -/
theorem unlinkLarge_behind {l : List (Nat × Nat)} {q r0 : Nat × Nat}
    (hl : LargeList st.mem (q :: l)) (hok : ∀ r ∈ q :: l, 0 < r.1 ∧ 24 ≤ r.2 ∧ r.1 + r.2 ≤ 2 ^ 47)
    (hd : (q :: l).Pairwise fun r r' => Disjoint₂ r.1 r.2 r'.1 r'.2) (hr0 : r0 ∈ l)
    (hn : l.length ≤ n) : ∃ m', st.unlinkLarge (r0.1 + 24) n (some q.1) (headPtr l) =
        some { st with mem := m', maps := st.maps.erase r0 } ∧
      LargeList m' (q :: l.erase r0) ∧
      ∀ x, (∀ r ∈ q :: l, x < r.1 ∨ r.1 + 24 ≤ x) → m' x = st.mem x := by
  induction l generalizing q n with
  | nil => cases hr0
  | cons r l ih =>
    obtain ⟨n, rfl⟩ : ∃ i, n = i + 1 := ⟨n - 1, by simp at hn; omega⟩
    have hq := hok q mem_cons_self
    have hr := hok r (mem_cons_of_mem _ mem_cons_self)
    have hlen : ∀ r' ∈ r :: l, 24 ≤ r'.2 := fun r' h => (hok r' (mem_cons_of_mem _ h)).2.1
    have hd' := (pairwise_cons.mp hd).2
    rw [headPtr_cons, unlinkLarge, if_neg (by omega), hl.2.1]
    by_cases heq : r = r0
    · -- this is the one: `q` gets the pointer to what is behind it
      subst heq
      have hhead : headPtr l < 2 ^ 64 := by
        cases l with
        | nil => decide
        | cons r' l =>
          have := hok r' (by simp)
          show r'.1 < 2 ^ 64
          omega
      rw [if_pos rfl, largeSize_eq hr.2.1 (by omega), show r.1 + 24 - largeSegSize = r.1 from
        Nat.add_sub_cancel _ _]
      refine ⟨_, rfl, ?_, fun x hx => putLargeSeg_of_outside (hx q mem_cons_self)⟩
      rw [erase_cons_head]
      refine ⟨?_, hl.2.2.congr fun r' hr' x hx hx' => putLargeSeg_of_outside ?_⟩
      · rw [hl.1]
        exact largeSeg_put (show q.1 + 24 < _ by omega) (show q.2 - 24 < _ by omega) hhead
      · have := (pairwise_cons.mp hd).1 r' (mem_cons_of_mem _ hr')
        have := hlen r' (mem_cons_of_mem _ hr')
        omega
    have hr0' : r0 ∈ l := (mem_cons.mp hr0).resolve_left (Ne.symm heq)
    rw [if_neg fun h => heq (eq_of_start hd' hlen mem_cons_self hr0 h)]
    obtain ⟨m', hst, hlist, hframe⟩ := ih hl.2 (fun r' h => hok r' (mem_cons_of_mem _ h)) hd'
      hr0' (by simpa using hn)
    refine ⟨m', hst, ?_, fun x hx => hframe x fun r' h => hx r' (mem_cons_of_mem _ h)⟩
    rw [erase_cons_tail (by simpa using heq)]
    refine ⟨(largeSeg_congr fun x hx hx' => hframe x fun r' h => ?_).trans hl.1, hlist⟩
    have := (pairwise_cons.mp hd).1 r' h
    have := hlen r' h
    omega

/-- A mapping is taken out of the list. -/
theorem unlinkLarge_spec {r0 : Nat × Nat} (h : Rep st slots) (hr0 : r0 ∈ st.maps)
    (hn : st.maps.length ≤ n) : ∃ m', st.unlinkLarge (r0.1 + 24) n none st.largeAllocList =
        some { st with mem := m', maps := st.maps.erase r0,
                       largeAllocList := headPtr (st.maps.erase r0) } ∧
      LargeList m' (st.maps.erase r0) ∧
      ∀ x, (∀ r ∈ st.maps, x < r.1 ∨ r.1 + 24 ≤ x) → m' x = st.mem x := by
  have hok : ∀ r ∈ st.maps, 0 < r.1 ∧ 24 ≤ r.2 ∧ r.1 + r.2 ≤ 2 ^ 47 := by
    intro r hr
    have := h.maps r hr
    exact ⟨this.1, this.2.2.1, this.2.2.2⟩
  have hd := h.apart
  have hl := h.large
  rw [h.list]
  cases hmaps : st.maps with
  | nil =>
    rw [hmaps] at hr0
    cases hr0
  | cons r l =>
    rw [hmaps] at hr0 hn hok hd hl
    obtain ⟨n, rfl⟩ : ∃ i, n = i + 1 := ⟨n - 1, by simp at hn; omega⟩
    have hr := hok r mem_cons_self
    rw [headPtr_cons, unlinkLarge, if_neg (by omega)]
    rw [hl.1]
    by_cases heq : r = r0
    · subst heq
      rw [if_pos rfl, largeSize_eq hr.2.1 (by omega), show r.1 + 24 - largeSegSize = r.1 from
        Nat.add_sub_cancel _ _]
      rw [hmaps, erase_cons_head]
      exact ⟨st.mem, rfl, hl.2, fun _ _ => rfl⟩
    have hr0' : r0 ∈ l := (mem_cons.mp hr0).resolve_left (Ne.symm heq)
    rw [if_neg fun h => heq (eq_of_start hd (fun r' h => (hok r' h).2.1) mem_cons_self hr0 h)]
    obtain ⟨m', hst, hlist, hframe⟩ :=
      unlinkLarge_behind (n := n) hl hok hd hr0' (by simpa using hn)
    have herase : (r :: l).erase r0 = r :: l.erase r0 := erase_cons_tail (by simpa using heq)
    have hsame : st.largeAllocList = r.1 := by rw [h.list, hmaps, headPtr_cons]
    refine ⟨m', hst.trans ?_, by rwa [herase], hframe⟩
    rw [hmaps, herase, headPtr_cons, ← hsame]

theorem free_returns (h : Rep st slots) (hp : Room st slots p k) (hn : st.maps.length ≤ n) :
    ∃ slots', Rep (st.free n p) slots' ∧ KeepsBut p st slots (st.free n p) slots' ∧
      Returned p k st (st.free n p) slots' ∧ slots'.length ≤ slots.length ∧
      (st.free n p).maps.length ≤ st.maps.length := by
  have hpos := h.room_bounds hp
  unfold free
  rw [if_neg (by omega)]
  rcases hp with ⟨a, hs, rfl⟩ | ⟨lo, hlo, rfl⟩
  · -- a slot of the heap is not in the list
    have hnone : st.unlinkLarge (a + 32) n none st.largeAllocList = none := by
      rw [h.list]
      refine unlinkLarge_none h.large (fun r hr => (h.maps r hr).1) ?_
      intro r hr heq
      obtain ⟨hhead, hlaid⟩ := h.laid hs
      have hplace := hlaid.place hs
      have := h.clear hhead r hr
      omega
    rw [hnone]
    obtain ⟨slots', hrep, hkeeps, hret, hlen, hmaps⟩ := heapFree_returns h hs
    exact ⟨slots', hrep, hkeeps, hret, hlen, by rw [hmaps]⟩
  obtain ⟨m', heq, hlist, hframe⟩ := unlinkLarge_spec h hlo hn
  rw [heq]
  -- nothing but headers of mappings has changed
  have hmem : ∀ lo' k' n', Region st slots lo' k' n' → ∀ x,
      (k' = 32 ∧ lo' ≤ x ∧ x < lo' + 32) ∨ (lo' + k' ≤ x ∧ x < lo' + k' + n') →
      m' x = st.mem x := by
    intro lo' k' n' hr x hx
    apply hframe
    intro r hmem
    have := h.regions_apart hr (h.map_region hmem)
    omega
  refine ⟨slots, ⟨?_, rfl, hlist, ?_, ?_, ?_⟩, ?_, .inr ⟨lo, rfl, hlo, ?_⟩, le_rfl, ?_⟩
  · exact h.heap_congr fun lo' n' hr x hx hx' => hmem lo' 32 n' hr x (.inl ⟨rfl, hx, hx'⟩)
  · intro r hr
    exact h.maps r (mem_of_mem_erase hr)
  · exact h.apart.sublist erase_sublist
  · intro hhead r hr
    exact h.clear hhead r (mem_of_mem_erase hr)
  · intro q n' hq hne
    obtain ⟨lo', k', hr, rfl⟩ := hq.region
    refine ⟨?_, fun x hx hx' => hmem lo' k' n' hr x (.inr ⟨hx, by omega⟩)⟩
    rcases hq with hs | ⟨lo'', hm, hlo''⟩
    · exact .inl hs
    refine .inr ⟨lo'', (mem_erase_of_ne ?_).mpr hm, hlo''⟩
    intro heq
    have := (Prod.mk.inj heq).1
    omega
  · have hnodup : st.maps.Nodup := by
      refine h.apart.imp_of_mem ?_
      rintro r r' hr hr' hd rfl
      have := h.maps r hr
      omega
    exact hnodup.not_mem_erase
  · exact length_erase_le

end Free

end Vespera.Userspace
