import Vespera.Lib.Segments
import Vespera.Userspace.Malloc

/-! # The layout of the allocator's memory

What the headers in memory say, as a list of slots (`Laid`) and a list of mappings (`LargeList`), and
what each piece of the allocator does to it. `Reshape` is what `split_segment`, `combine_segments`
and the growth of the heap have in common: the heap is laid out anew and no byte outside the headers
of the new layout has changed.
-/

namespace Vespera.Userspace

open Lib List ByteMem Malloc

/-! ## Headers -/

section Headers

variable {m m' : ByteMem} {st : Malloc} {a b x : Nat} {f : HeapSeg → HeapSeg}

/-- The fields fit into a header. -/
structure HeapSeg.Fits (s : HeapSeg) : Prop where
  length : s.length < 2 ^ 64
  free : s.free < 2 ^ 32
  magic : s.magic < 2 ^ 32
  next : s.next < 2 ^ 64
  prev : s.prev < 2 ^ 64

theorem heapSeg_fits (m : ByteMem) (a : Nat) : (heapSeg m a).Fits :=
  ⟨load_lt 8 m _, load_lt 4 m _, load_lt 4 m _, load_lt 8 m _, load_lt 8 m _⟩

/-- A header depends on its own bytes. -/
theorem heapSeg_congr (h : ∀ x, a ≤ x → x < a + 32 → m' x = m x) : heapSeg m' a = heapSeg m a := by
  have hload : ∀ n i, i + n ≤ 32 → m'.load n (a + i) = m.load n (a + i) := by
    intro n i hi
    apply load_congr
    intro y h1 h2
    exact h y (by omega) (by omega)
  simp only [heapSeg, hload _ _ (show 8 + 4 ≤ 32 by decide), hload _ _ (show 12 + 4 ≤ 32 by decide),
    hload _ _ (show 16 + 8 ≤ 32 by decide), hload _ _ (show 24 + 8 ≤ 32 by decide),
    show m'.load 8 a = m.load 8 a from hload 8 0 (by decide)]

theorem putHeapSeg_of_outside {s : HeapSeg} (h : x < a ∨ a + 32 ≤ x) :
    putHeapSeg m a s x = m x := by
  unfold putHeapSeg
  rw [store_of_not_mem (by omega), store_of_not_mem (by omega),
    store_of_not_mem (by omega), store_of_not_mem (by omega),
    store_of_not_mem (by omega)]

theorem heapSeg_put {s : HeapSeg} (h : s.Fits) : heapSeg (putHeapSeg m a s) a = s := by
  obtain ⟨length, free, magic, next, prev⟩ := s
  obtain ⟨h1, h2, h3, h4, h5⟩ := h
  simp (disch := omega) only [heapSeg, putHeapSeg, load_store_of_disjoint,
    load_store_self, HeapSeg.mk.injEq]
  exact ⟨Nat.mod_eq_of_lt h1, Nat.mod_eq_of_lt h2, Nat.mod_eq_of_lt h3, Nat.mod_eq_of_lt h4,
    Nat.mod_eq_of_lt h5⟩

theorem setSeg_of_outside (h : x < a ∨ a + 32 ≤ x) : (st.setSeg a f).mem x = st.mem x :=
  putHeapSeg_of_outside h

theorem heapSeg_setSeg (h : (f (heapSeg st.mem a)).Fits) :
    heapSeg (st.setSeg a f).mem a = f (heapSeg st.mem a) :=
  heapSeg_put h

end Headers

/-! ## Slots -/

/-- A segment: the bytes behind its header, and whether it is free. -/
structure Slot where
  length : Nat
  free : Bool
deriving DecidableEq

/-- The bytes a segment takes, header included. -/
def Slot.span (s : Slot) : Nat := 32 + s.length

/-- The header at `a` is that of slot `s`, between the segments at `p` and `q`. -/
def HeaderAt (m : ByteMem) (a p q : Nat) (s : Slot) : Prop :=
  heapSeg m a = ⟨s.length, if s.free then 1 else 0, heapMagic, q, p⟩

/-- The heap from `base` to `e` is laid out in slots. -/
structure Laid (m : ByteMem) (base e : Nat) (slots : List Slot) : Prop where
  chain : ∃ p, Chain Slot.span (HeaderAt m) e 0 base slots p e
  nonempty : slots ≠ []
  pos : 0 < base
  aligned : base % 16 = 0
  top : e ≤ 2 ^ 47
  lengths : ∀ s ∈ slots, s.length % 16 = 0

/-- `m'` holds the heap in its new layout, and differs from `m` in headers of that layout only. -/
structure Reshape (m m' : ByteMem) (base e : Nat) (slots : List Slot) : Prop where
  laid : Laid m' base e slots
  headers : ∀ x, (∀ y s, (y, s) ∈ places Slot.span base slots → x < y ∨ y + 32 ≤ x) → m' x = m x

section Slots

variable {m m' : ByteMem} {base e a b : Nat} {slots l1 l2 mid mid' : List Slot} {s t : Slot}

theorem Slot.le_span (s : Slot) : 32 ≤ s.span := Nat.le_add_right 32 s.length

theorem HeaderAt.congr {p q : Nat} (h : HeaderAt m a p q s)
    (hm : ∀ x, a ≤ x → x < a + 32 → m' x = m x) : HeaderAt m' a p q s :=
  (heapSeg_congr hm).trans h

theorem Laid.end_eq (h : Laid m base e slots) : e = base + extent Slot.span slots :=
  h.chain.elim fun _ hc => hc.end_eq

theorem extent_mod (h : ∀ s ∈ slots, s.length % 16 = 0) : extent Slot.span slots % 16 = 0 := by
  induction slots with
  | nil => rfl
  | cons s l ih =>
    have hs := h s mem_cons_self
    have hl := ih fun t ht => h t (mem_cons_of_mem _ ht)
    simp only [extent, Slot.span]
    omega

/-- Where a slot of the heap can be. -/
theorem Laid.place (h : Laid m base e slots) (hs : (a, s) ∈ places Slot.span base slots) :
    base ≤ a ∧ a + 32 + s.length ≤ e ∧ a % 16 = 0 ∧ s.length % 16 = 0 ∧ 0 < a ∧ e ≤ 2 ^ 47 := by
  obtain ⟨l1, l2, rfl, rfl⟩ := place_cut hs
  have hb := (place_bounds hs).2
  have hmod : extent Slot.span l1 % 16 = 0 :=
    extent_mod fun t ht => h.lengths t (mem_append_left _ ht)
  have hlen := h.lengths s (mem_append_right _ mem_cons_self)
  have he := h.end_eq
  have := h.pos
  have := h.aligned
  have := h.top
  have hspan : s.span = 32 + s.length := rfl
  exact ⟨by omega, by omega, by omega, hlen, by omega, by omega⟩

/-- The header of a slot, and what its neighbours are. -/
theorem Laid.header (h : Laid m base e (l1 ++ s :: l2)) :
    ∃ p, HeaderAt m (base + extent Slot.span l1) p
      (link e (base + extent Slot.span l1 + s.span)) s := by
  obtain ⟨_, hc⟩ := h.chain
  obtain ⟨p, -, hc⟩ := chain_append.mp hc
  exact ⟨p, hc.1⟩

/-- The layout depends on the headers. -/
theorem Laid.congr (h : Laid m base e slots)
    (hm : ∀ y s, (y, s) ∈ places Slot.span base slots → ∀ x, y ≤ x → x < y + 32 → m' x = m x) :
    Laid m' base e slots := by
  obtain ⟨p, hc⟩ := h.chain
  exact { h with chain := ⟨p, hc.imp fun y s _ hy hN => hN.congr (hm y s hy)⟩ }

/-- A reshaped heap keeps what stands behind the headers, -/
theorem Reshape.payload (h : Reshape m m' base e slots) (hs : (a, s) ∈ places Slot.span base slots)
    {x : Nat} (hx : a + 32 ≤ x) (hx' : x < a + s.span) : m' x = m x := by
  apply h.headers
  intro y t ht
  rcases places_apart hs ht with heq | hlt | hlt
  · obtain ⟨rfl, rfl⟩ := Prod.mk.inj heq
    omega
  · omega
  · simp only [Slot.span] at hlt
    omega

/-- and what is not in the heap. -/
theorem Reshape.outside (h : Reshape m m' base e slots) {x : Nat} (hx : x < base ∨ e ≤ x) :
    m' x = m x := by
  apply h.headers
  intro y t ht
  have := h.laid.place ht
  omega

/-- A stretch of the heap is replaced by one of the same extent, by writing its headers. The
segment behind it may get a new neighbour. -/
theorem Laid.reshape (h : Laid m base e (l1 ++ mid ++ l2))
    (ha : a = base + extent Slot.span l1) (hb : b = a + extent Slot.span mid)
    (hext : extent Slot.span mid' = extent Slot.span mid) (hne : mid' ≠ [])
    (hlen : ∀ s ∈ mid', s.length % 16 = 0)
    (hframe : ∀ x, (∀ y s, (y, s) ∈ places Slot.span a mid' → x < y ∨ y + 32 ≤ x) →
      (b = e ∨ x < b ∨ b + 32 ≤ x) → m' x = m x)
    (hmid : ∀ p q, Chain Slot.span (HeaderAt m) e p a mid q b →
      ∃ q', Chain Slot.span (HeaderAt m') e p a mid' q' b ∧
        ∀ r t, b + 32 ≤ e → HeaderAt m b q r t → HeaderAt m' b q' r t) :
    Reshape m m' base e (l1 ++ mid' ++ l2) := by
  obtain ⟨p', hc⟩ := h.chain
  rw [append_assoc] at hc
  obtain ⟨p, hc1, hc⟩ := chain_append.mp hc
  obtain ⟨q, hcm, hc2⟩ := chain_append.mp hc
  rw [← ha, ← hb] at hcm hc2
  rw [← ha] at hc1
  obtain ⟨q', hcm', hlink⟩ := hmid p q hcm
  -- before the stretch nothing changed
  have hc1' : Chain Slot.span (HeaderAt m') e 0 base l1 p a := by
    refine hc1.imp fun y s _ hy hN => hN.congr fun x _ hx => hframe x ?_ ?_
    · intro z t hz
      have := (place_bounds hy).2
      have := (place_bounds hz).1
      have := s.le_span
      omega
    · have := (place_bounds hy).2
      have := s.le_span
      omega
  -- behind it only the first header did
  have hc2' : ∃ p'', Chain Slot.span (HeaderAt m') e q' b l2 p'' e := by
    refine hc2.relink Slot.le_span ?_ ?_
    · intro s hs hN
      have := s.le_span
      exact hlink _ _ (by omega) hN
    intro y s r hy hN
    refine hN.congr fun x hx _ => hframe x ?_ (by omega)
    intro z t hz
    have := (place_bounds hz).2
    omega
  obtain ⟨p'', hc2'⟩ := hc2'
  have hnew : Chain Slot.span (HeaderAt m') e 0 base (l1 ++ (mid' ++ l2)) p'' e := by
    refine chain_append.mpr ⟨p, by rwa [← ha], chain_append.mpr ⟨q', ?_, ?_⟩⟩
    · rwa [hext, ← ha, ← hb]
    · rwa [hext, ← ha, ← hb]
  refine ⟨⟨⟨p'', by rwa [append_assoc]⟩, by simp [hne], h.pos, h.aligned, h.top, ?_⟩, ?_⟩
  · intro s hs
    rcases mem_append.mp hs with hs | hs
    · rcases mem_append.mp hs with hs | hs
      · exact h.lengths s (mem_append_left _ (mem_append_left _ hs))
      · exact hlen s hs
    · exact h.lengths s (mem_append_right _ hs)
  intro x hx
  rw [places_append, places_append, extent_append, hext, ← Nat.add_assoc, ← ha, ← hb] at hx
  refine hframe x (fun y s hy => hx y s (by simp [hy])) ?_
  cases l2 with
  | nil => exact Or.inl hc2.2.symm
  | cons t l2 => exact Or.inr (hx b t (by simp [places]))

/-- The last segment is replaced by others that reach to a new end of the heap. -/
theorem Laid.regrow {e' : Nat} (h : Laid m base e (l1 ++ [s])) (ha : a = base + extent Slot.span l1)
    (he : e ≤ e') (htop : e' ≤ 2 ^ 47) (hne : mid' ≠ []) (hlen : ∀ s ∈ mid', s.length % 16 = 0)
    (hframe : ∀ x, (∀ y s, (y, s) ∈ places Slot.span a mid' → x < y ∨ y + 32 ≤ x) → m' x = m x)
    (hmid : ∀ p, HeaderAt m a p 0 s → ∃ q, Chain Slot.span (HeaderAt m') e' p a mid' q e') :
    Reshape m m' base e' (l1 ++ mid') := by
  obtain ⟨p', hc⟩ := h.chain
  obtain ⟨p, hc1, hs, -, hend⟩ := chain_append.mp hc
  rw [← ha] at hc1 hs hend
  rw [← hend, link_self] at hs
  obtain ⟨q, hcm⟩ := hmid p hs
  have hc1' : Chain Slot.span (HeaderAt m') e' 0 base l1 p a := by
    refine hc1.imp fun y t r hy hN => ?_
    have hle := (place_bounds hy).2
    have := s.le_span
    have := t.le_span
    -- the links of the segments before do not reach the end, neither the old one nor the new one
    rw [link_of_ne (by omega)] at hN ⊢
    refine hN.congr fun x _ hx => hframe x ?_
    intro z u hz
    have := (place_bounds hz).1
    omega
  refine ⟨⟨⟨q, chain_append.mpr ⟨p, by rwa [← ha], by rwa [← ha]⟩⟩, by simp [hne], h.pos, h.aligned,
    htop, ?_⟩, ?_⟩
  · intro t ht
    rcases mem_append.mp ht with ht | ht
    · exact h.lengths t (mem_append_left _ ht)
    · exact hlen t ht
  · intro x hx
    rw [places_append, ← ha] at hx
    exact hframe x fun y t hy => hx y t (mem_append_right _ hy)

end Slots

/-! ## Cutting, joining and growing -/

section Operations

variable {st : Malloc} {base e a b x p q size : Nat} {l1 l2 : List Slot} {s t : Slot}

/-- The header at `a` after an assignment to its fields. -/
theorem HeaderAt.set {f : HeapSeg → HeapSeg}
    (hf : f (heapSeg st.mem a) = ⟨s.length, if s.free then 1 else 0, heapMagic, q, p⟩)
    (hs : s.length < 2 ^ 64) (hp : p < 2 ^ 64) (hq : q < 2 ^ 64) :
    HeaderAt (st.setSeg a f).mem a p q s := by
  have hfits : (f (heapSeg st.mem a)).Fits := by
    rw [hf]
    refine ⟨hs, ?_, show heapMagic < 2 ^ 32 by decide, hq, hp⟩
    show (if s.free then 1 else 0) < 2 ^ 32
    split <;> decide
  exact (heapSeg_setSeg hfits).trans hf

theorem setPrev_of_outside (h : b = e ∨ x < b ∨ b + 32 ≤ x) :
    (st.setPrev (link e b) p).mem x = st.mem x := by
  unfold Malloc.setPrev
  split
  · rename_i hlink
    rw [link, ite_ne_left_iff] at hlink
    rw [link_of_ne hlink.1]
    exact setSeg_of_outside (by omega)
  · rfl

theorem HeaderAt.setPrev {r : Nat} (h : HeaderAt st.mem b q r t) (hb : 0 < b) (he : b ≠ e)
    (hp : p < 2 ^ 64) : HeaderAt (st.setPrev (link e b) p).mem b p r t := by
  have hfits := heapSeg_fits st.mem b
  unfold Malloc.setPrev
  rw [HeaderAt] at h
  rw [h] at hfits
  rw [link_of_ne he, if_pos (by omega)]
  exact HeaderAt.set (by rw [h]) hfits.length hp hfits.next

theorem link_lt (h : b < 2 ^ 64) : link e b < 2 ^ 64 := by
  unfold link
  split
  · decide
  · exact h

variable (ha : a = base + extent Slot.span l1)

include ha

/-- `split_segment` cuts a slot in two, or leaves it as it is. -/
theorem splitSegment_reshapes (h : Laid st.mem base e (l1 ++ s :: l2)) (hsize : size ≤ s.length)
    (hmod : size % 16 = 0) : ∃ s' r, Reshape st.mem (st.splitSegment a size).mem base e (l1 ++ (s' :: r) ++ l2) ∧
      s'.free = s.free ∧ size ≤ s'.length ∧ r.length ≤ 1 := by
  obtain ⟨p0, hread⟩ := h.header
  have hplace := h.place (place_at base l1 s l2)
  rw [← ha] at hread hplace
  have hspan : s.span = 32 + s.length := rfl
  obtain ⟨b, hb⟩ : ∃ b, b = a + s.span := ⟨_, rfl⟩
  rw [HeaderAt, ← hb] at hread
  unfold Malloc.splitSegment
  simp only [hread, heapSegSize, minAllocSize]
  split
  · exact ⟨s, [], ⟨by simpa using h, fun _ _ => rfl⟩, rfl, hsize, by simp⟩
  rename_i hlong
  rw [Nat.mod_eq_of_lt (by omega)] at hlong
  obtain ⟨new, hnew⟩ : ∃ new, new = a + 32 + size := ⟨_, rfl⟩
  rw [← hnew]
  generalize hst1 : st.setSeg new _ = st1
  generalize hst2 : st1.setPrev (link e b) new = st2
  generalize hst3 : st2.setSeg a _ = st3
  -- what each of the three writes leaves alone
  have hkeep1 : ∀ x, (x < new ∨ new + 32 ≤ x) → st1.mem x = st.mem x := by
    intro x hx
    rw [← hst1, setSeg_of_outside hx]
  have hkeep2 : ∀ x, (b = e ∨ x < b ∨ b + 32 ≤ x) → st2.mem x = st1.mem x := by
    intro x hx
    rw [← hst2, setPrev_of_outside hx]
  have hkeep3 : ∀ x, (x < a ∨ a + 32 ≤ x) → st3.mem x = st2.mem x := by
    intro x hx
    rw [← hst3, setSeg_of_outside hx]
  have hfirst : HeaderAt st3.mem a p0 new ⟨size, s.free⟩ := by
    have hread2 : heapSeg st2.mem a = heapSeg st.mem a := by
      apply heapSeg_congr
      intro x h1 h2
      rw [hkeep2 x (by omega), hkeep1 x (by omega)]
    have hp := heapSeg_fits st.mem a
    rw [hread] at hp
    rw [← hst3]
    exact HeaderAt.set (by rw [hread2, hread]) (show size < _ by omega) hp.prev (by omega)
  have hsecond : HeaderAt st3.mem new a (link e b) ⟨s.length - size - 32, true⟩ := by
    have hput : HeaderAt st1.mem new a (link e b) ⟨s.length - size - 32, true⟩ := by
      rw [← hst1]
      exact HeaderAt.set rfl (show s.length - size - 32 < _ by omega) (by omega)
        (link_lt (by omega))
    apply hput.congr
    intro x h1 h2
    rw [hkeep3 x (by omega), hkeep2 x (by omega)]
  have hbehind : ∀ r t, b + 32 ≤ e → HeaderAt st.mem b a r t → HeaderAt st3.mem b new r t := by
    intro r t hbe hN
    have hN1 : HeaderAt st1.mem b a r t := hN.congr fun x _ _ => hkeep1 x (by omega)
    have hN2 : HeaderAt st2.mem b new r t := by
      rw [← hst2]
      exact hN1.setPrev (by omega) (by omega) (by omega)
    exact hN2.congr fun x _ _ => hkeep3 x (by omega)
  refine ⟨⟨size, s.free⟩, [⟨s.length - size - 32, true⟩], ?_, rfl, le_rfl, by simp⟩
  have hspan1 : (⟨size, s.free⟩ : Slot).span = 32 + size := rfl
  have hspan2 : (⟨s.length - size - 32, true⟩ : Slot).span = 32 + (s.length - size - 32) := rfl
  have hb2 : new + (⟨s.length - size - 32, true⟩ : Slot).span = b := by omega
  have hnew' : a + (⟨size, s.free⟩ : Slot).span = new := by omega
  have hcut : Laid st.mem base e (l1 ++ [s] ++ l2) := by simpa using h
  refine hcut.reshape (b := b) ha (by simp [extent, hb]) ?_ (by simp) ?_ ?_ ?_
  · simp only [extent]
    omega
  · intro t ht
    rcases mem_pair.mp ht with rfl | rfl
    · exact hmod
    · show (s.length - size - 32) % 16 = 0
      omega
  · intro x hx hxb
    have hxa := hx a ⟨size, s.free⟩ (by simp [places])
    have hxn := hx new ⟨s.length - size - 32, true⟩ (by simp [places, hnew'])
    rw [hkeep3 x hxa, hkeep2 x hxb, hkeep1 x hxn]
  rintro p q ⟨hN, rfl, -⟩
  rw [HeaderAt, ← hb] at hN
  obtain rfl : p0 = p := congrArg HeapSeg.prev (hread.symm.trans hN)
  refine ⟨new, ⟨?_, ?_, ?_⟩, hbehind⟩
  · rw [hnew', link_of_ne (by omega)]
    exact hfirst
  · rw [hnew', hb2]
    exact hsecond
  · exact ⟨hnew'.symm, by rw [hnew', hb2]⟩

/-- A segment takes over the one behind it. -/
theorem absorb_reshapes {c : Nat} (h : Laid st.mem base e (l1 ++ s :: t :: l2))
    (hc : c = a + s.span) :
    Reshape st.mem (st.absorb a c).mem base e (l1 ++ [⟨s.length + t.span, s.free⟩] ++ l2) := by
  have h' : Laid st.mem base e ((l1 ++ [s]) ++ t :: l2) := by simpa using h
  have hc' : c = base + extent Slot.span (l1 ++ [s]) := by
    rw [extent_append, hc, ha]
    simp [extent, Nat.add_assoc]
  obtain ⟨p1, hread⟩ := h'.header
  have hplace := h'.place (place_at base (l1 ++ [s]) t l2)
  have hplace0 := h.place (place_at base l1 s (t :: l2))
  rw [← hc'] at hread hplace
  have hspan : s.span = 32 + s.length := rfl
  have hspan' : t.span = 32 + t.length := rfl
  obtain ⟨b, hb⟩ : ∃ b, b = c + t.span := ⟨_, rfl⟩
  rw [HeaderAt, ← hb] at hread
  unfold Malloc.absorb
  simp only [hread, heapSegSize]
  generalize hst1 : st.setSeg a _ = st1
  have hkeep1 : ∀ x, (x < a ∨ a + 32 ≤ x) → st1.mem x = st.mem x := by
    intro x hx
    rw [← hst1, setSeg_of_outside hx]
  have hcut : Laid st.mem base e (l1 ++ [s, t] ++ l2) := by simpa using h
  -- one header is written, and the back link of the segment that follows
  refine hcut.reshape (b := b) ha ?_ ?_ (by simp) ?_ ?_ ?_
  · simp only [extent]
    omega
  · simp only [extent, Slot.span]
    omega
  · intro u hu
    rw [mem_singleton.mp hu]
    show (s.length + t.span) % 16 = 0
    omega
  · intro x hx hxb
    have hxa := hx a ⟨s.length + t.span, s.free⟩ (by simp [places])
    rw [setPrev_of_outside hxb, hkeep1 x hxa]
  rintro p q ⟨hs, ht, rfl, -⟩
  have hp := heapSeg_fits st.mem a
  rw [hs] at hp
  refine ⟨a, ⟨?_, rfl, ?_⟩, ?_⟩
  · have hset : HeaderAt st1.mem a p (link e b) ⟨s.length + t.span, s.free⟩ := by
      rw [← hst1]
      refine HeaderAt.set ?_ (show s.length + t.span < _ by omega) hp.prev (link_lt (by omega))
      rw [hs, hspan']
      simp only [HeapSeg.mk.injEq, and_true]
      exact Nat.mod_eq_of_lt (by omega)
    have hb' : a + (⟨s.length + t.span, s.free⟩ : Slot).span = b := by
      simp only [Slot.span]
      omega
    rw [hb']
    exact hset.congr fun x _ _ => setPrev_of_outside (by omega)
  · simp only [Slot.span]
    omega
  intro r u hbe hN
  rw [← hc] at hN
  have hN1 : HeaderAt st1.mem b c r u := hN.congr fun x _ _ => hkeep1 x (by omega)
  exact hN1.setPrev (by omega) (by omega) (by omega)

/-- A segment is marked free or used. -/
theorem setFree_reshapes {v : Nat} {f : Bool} (h : Laid st.mem base e (l1 ++ s :: l2))
    (hv : v = if f then 1 else 0) :
    Reshape st.mem (st.setSeg a fun h => { h with free := v }).mem base e
      (l1 ++ [⟨s.length, f⟩] ++ l2) := by
  have hplace := h.place (place_at base l1 s l2)
  have hspan : s.span = 32 + s.length := rfl
  have hspan' : (⟨s.length, f⟩ : Slot).span = s.span := rfl
  obtain ⟨b, hb⟩ : ∃ b, b = a + s.span := ⟨_, rfl⟩
  have hcut : Laid st.mem base e (l1 ++ [s] ++ l2) := by simpa using h
  refine hcut.reshape (b := b) ha (by simp [extent, hb]) (by simp [extent, hspan']) (by simp)
    ?_ ?_ ?_
  · intro t ht
    rw [mem_singleton.mp ht]
    exact hplace.2.2.2.1
  · intro x hx _
    exact setSeg_of_outside (hx a ⟨s.length, f⟩ (by simp [places]))
  rintro p q ⟨hs, hq, -⟩
  have hfits := heapSeg_fits st.mem a
  rw [HeaderAt] at hs
  rw [hs] at hfits
  refine ⟨q, ⟨?_, hq, ?_⟩, ?_⟩
  · rw [hspan']
    exact HeaderAt.set (by rw [hs, hv]) hfits.length hfits.prev hfits.next
  · rw [hspan', hb]
  · intro r t _ hN
    exact hN.congr fun x _ _ => setSeg_of_outside (by omega)

/-- The heap grows by extending its last segment, -/
theorem extend_reshapes {g : Nat} (h : Laid st.mem base e (l1 ++ [s])) (hg : g % 16 = 0)
    (htop : e + g ≤ 2 ^ 47) :
    Reshape st.mem (st.setSeg a fun h => { h with length := h.length + g }).mem base (e + g)
      (l1 ++ [⟨s.length + g, s.free⟩]) := by
  have hplace := h.place (place_at base l1 s [])
  have hend := h.end_eq
  simp only [extent_append, extent, ← Nat.add_assoc, ← ha, Slot.span] at hend
  refine h.regrow ha (by omega) htop (by simp) ?_ ?_ ?_
  · intro t ht
    rw [mem_singleton.mp ht]
    show (s.length + g) % 16 = 0
    omega
  · intro x hx
    exact setSeg_of_outside (hx a ⟨s.length + g, s.free⟩ (by simp [places]))
  intro p hN
  have hfits := heapSeg_fits st.mem a
  rw [HeaderAt] at hN
  rw [hN] at hfits
  have hlast : a + (⟨s.length + g, s.free⟩ : Slot).span = e + g := by
    simp only [Slot.span]
    omega
  refine ⟨a, ?_, rfl, hlast.symm⟩
  rw [hlast, link_self]
  exact HeaderAt.set (by rw [hN]) (show s.length + g < _ by omega) hfits.prev (by decide)

/-- or by a new one behind it. -/
theorem append_reshapes {g : Nat} (h : Laid st.mem base e (l1 ++ [s])) (hg : g % 16 = 0)
    (htop : e + 32 + g ≤ 2 ^ 47) :
    Reshape st.mem ((st.setSeg e fun _ => ⟨g, 1, heapMagic, 0, a⟩).setSeg a fun h =>
      { h with next := e }).mem base (e + 32 + g) (l1 ++ [s, ⟨g, true⟩]) := by
  have hplace := h.place (place_at base l1 s [])
  have hend := h.end_eq
  simp only [extent_append, extent, ← Nat.add_assoc, ← ha, Nat.add_zero] at hend
  have hspan : s.span = 32 + s.length := rfl
  generalize hst1 : st.setSeg e _ = st1
  have hkeep1 : ∀ x, (x < e ∨ e + 32 ≤ x) → st1.mem x = st.mem x := by
    intro x hx
    rw [← hst1, setSeg_of_outside hx]
  refine h.regrow ha (by omega) htop (by simp) ?_ ?_ ?_
  · intro t ht
    rcases mem_pair.mp ht with rfl | rfl
    · exact hplace.2.2.2.1
    · exact hg
  · intro x hx
    have hxa := hx a s (by simp [places])
    have hxe := hx e ⟨g, true⟩ (by simp [places, hend])
    rw [setSeg_of_outside hxa, hkeep1 x hxe]
  intro p hN
  have hN1 : HeaderAt st1.mem a p 0 s := hN.congr fun x _ _ => hkeep1 x (by omega)
  have hfits := heapSeg_fits st1.mem a
  rw [hN1] at hfits
  have hlast : e + (⟨g, true⟩ : Slot).span = e + 32 + g := by
    simp only [Slot.span]
    omega
  refine ⟨e, ?_, ?_, ?_⟩
  · rw [← hend, link_of_ne (by omega)]
    exact HeaderAt.set (by rw [hN1]) hfits.length hfits.prev (by omega)
  · rw [← hend, hlast, link_self]
    have hput : HeaderAt st1.mem e a 0 ⟨g, true⟩ := by
      rw [← hst1]
      exact HeaderAt.set rfl (show g < _ by omega) (by omega) (by decide)
    exact hput.congr fun x _ _ => setSeg_of_outside (by omega)
  · exact ⟨hend, by rw [← hend, hlast]⟩

omit ha

/-! ## The walks over the segments -/

variable {m : ByteMem} {l : List Slot} {p' n : Nat}
  (hc : Chain Slot.span (HeaderAt m) e p a l p' e) (hstart : 0 < a) (hn : l.length ≤ n)

include hc hstart hn

theorem findFreeSegment_spec (size : Nat) :
    findFreeSegment m size n (link e a) = 0 ∨
      ∃ l1 s l2, l = l1 ++ s :: l2 ∧ s.free ∧ size ≤ s.length ∧
        findFreeSegment m size n (link e a) = a + extent Slot.span l1 := by
  induction l generalizing p a n with
  | nil =>
    left
    rw [hc.2, link_self]
    cases n <;> simp [findFreeSegment]
  | cons s l ih =>
    obtain ⟨n, rfl⟩ : ∃ k, n = k + 1 := ⟨n - 1, by simp at hn; omega⟩
    have hend := hc.2.end_eq
    have hspan := s.le_span
    have hread := hc.1
    rw [HeaderAt] at hread
    rw [link_of_ne (by omega), findFreeSegment, if_neg (by omega), hread]
    by_cases hfit : s.free ∧ size ≤ s.length
    · refine Or.inr ⟨[], s, l, rfl, hfit.1, hfit.2, ?_⟩
      simp [hfit.1, hfit.2, extent]
    have hskip : ¬ ((if s.free then 1 else 0) ≠ 0 ∧ size ≤ s.length) := by
      intro h
      exact hfit ⟨by simpa using h.1, h.2⟩
    rw [if_neg (fun h => h rfl), if_neg hskip]
    rcases ih hc.2 (by omega) (by simpa using hn) with h0 | ⟨l1, t, l2, rfl, hf, hsize, hat⟩
    · exact Or.inl h0
    refine Or.inr ⟨s :: l1, t, l2, rfl, hf, hsize, ?_⟩
    rw [hat]
    simp only [extent]
    omega

theorem lastSegment_spec (hl : l ≠ []) :
    ∃ l1 s, l = l1 ++ [s] ∧ lastSegment m n a = some (a + extent Slot.span l1) := by
  induction l generalizing p a n with
  | nil => exact absurd rfl hl
  | cons s l ih =>
    obtain ⟨n, rfl⟩ : ∃ k, n = k + 1 := ⟨n - 1, by simp at hn; omega⟩
    have hread := hc.1
    rw [lastSegment, hread]
    cases l with
    | nil =>
      refine ⟨[], s, rfl, ?_⟩
      rw [← hc.2.2]
      simp [extent]
    | cons t l =>
      have hend := hc.2.end_eq
      have hpos := t.le_span
      simp only [extent] at hend
      rw [link_of_ne (by omega)]
      obtain ⟨l1, u, hl', hlast⟩ := ih hc.2 (by omega) (by simpa using hn) (by simp)
      refine ⟨s :: l1, u, by rw [hl']; rfl, ?_⟩
      rw [if_neg (show ¬ a + s.span = 0 by omega), if_neg (fun h => h rfl), hlast]
      simp only [extent, Nat.add_assoc]

end Operations

end Vespera.Userspace
