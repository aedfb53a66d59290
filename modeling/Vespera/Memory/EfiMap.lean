import Mathlib.Algebra.Group.Nat.Defs
import Vespera.Memory.FrameCalls

/-! # The allocator after boot

`PageFrameAllocator::read_efi_memory_map` builds the bitmap from the memory map of the firmware:
it picks a segment for the bitmap, sizes it by the sum of all descriptors, reserves everything,
clears the usable descriptors and marks the low megabyte and the bitmap's own pages.

`used_readEfiMemoryMap` is the bitmap in closed form. The bitmap has eight bits for every byte,
and only the first `memory_size / PAGE_SIZE + 1` of them are reserved at the start: the frames of
the rest of the last byte stay free, whatever the map says about them. It has as many bits as the
map has pages, and not as the map has addresses: usable pages behind a hole are not in it. Its
size is rounded up by a page too much when it ends on a page boundary. `Regular` says that none of
the three does harm, and `allocatable_iff_regular` that this is what it takes for the allocator to
hand out the usable memory and nothing else.
-/

namespace Vespera.Memory

open Lib FrameLedger

/-! ## The memory map -/

/-- `EFI_MEMORY_DESCRIPTOR`: a stretch of pages. Physical addresses have 52 bits, so that the
address arithmetic of the source does not wrap. -/
structure EfiMemoryDescriptor where
  type : Nat
  physAddr : Nat
  numPages : Nat
  aligned : pageSize ∣ physAddr
  bounded : physAddr + numPages * pageSize ≤ 2 ^ 52

namespace EfiMemoryDescriptor

/-- The types that become free memory: loader, boot services, conventional memory. -/
def usable (d : EfiMemoryDescriptor) : Bool :=
  d.type == 7 || d.type == 1 || d.type == 2 || d.type == 3 || d.type == 4

/-- A frame of the descriptor. -/
def Has (d : EfiMemoryDescriptor) (k : Nat) : Prop :=
  d.physAddr / pageSize ≤ k ∧ k < d.physAddr / pageSize + d.numPages

instance (d : EfiMemoryDescriptor) (k : Nat) : Decidable (d.Has k) :=
  inferInstanceAs (Decidable (_ ∧ _))

end EfiMemoryDescriptor

/-- The segments found so far for the bitmap: the largest one, and the largest one below 4 GiB. -/
structure SegSearch where
  largest : Nat
  largestSize : Nat
  bitmapSeg : Nat
  bitmapSegSize : Nat

/-- One round of the search. -/
def SegSearch.visit (s : SegSearch) (d : EfiMemoryDescriptor) : SegSearch :=
  if d.type ≠ 7 then s
  else
    let segSize := d.numPages * pageSize
    let s := if segSize > s.largestSize then { s with largest := d.physAddr, largestSize := segSize }
      else s
    if d.physAddr + segSize ≤ 0x100000000 ∧ segSize > s.bitmapSegSize then
      { s with bitmapSeg := d.physAddr, bitmapSegSize := segSize }
    else s

/-- `page_bitmap.buffer`: the segment the bitmap is put in. -/
def bitmapBuffer (map : List EfiMemoryDescriptor) : Nat :=
  let s := map.foldl SegSearch.visit ⟨0, 0, 0, 0⟩
  if s.bitmapSeg = 0 then s.largest else s.bitmapSeg

/-- `get_memory_size`: the sum over all descriptors. -/
def getMemorySize (map : List EfiMemoryDescriptor) : Nat :=
  map.foldl (fun size d => (size + d.numPages * pageSize) % 2 ^ 64) 0

/-- `page_bitmap.size`. -/
def bitmapSize (map : List EfiMemoryDescriptor) : Nat := getMemorySize map / pageSize / 8 + 1

namespace FrameAllocator

/-- `init_bitmap`: the bytes of the bitmap are cleared, those behind it are what they are. -/
def initBitmap (size : Nat) (behind : Nat → Bool) : FrameAllocator where
  bits i := if i < size * 8 then false else behind i
  maxIndex := size * 8
  hint := 0

/-- The loop that clears the usable descriptors. -/
def unreserveUsable (fa : FrameAllocator) (map : List EfiMemoryDescriptor) : FrameAllocator :=
  map.foldl (fun fa d => if d.usable then fa.unreservePages d.physAddr d.numPages else fa) fa

/-- `read_efi_memory_map`, on an allocator that has not been initialized. -/
def readEfiMemoryMap (map : List EfiMemoryDescriptor) (behind : Nat → Bool) : FrameAllocator :=
  let fa := initBitmap (bitmapSize map) behind
  let fa := fa.reservePages 0 (getMemorySize map / pageSize + 1)
  let fa := fa.unreserveUsable map
  let fa := fa.reservePages 0 0x100
  fa.lockPagesAt (bitmapBuffer map) (bitmapSize map / pageSize + 1)

end FrameAllocator

/-! ## The bitmap in closed form -/

section

variable (map : List EfiMemoryDescriptor) (k : Nat)

/-- A usable descriptor has the frame. -/
def UsableFrame : Prop := ∃ d ∈ map, d.usable = true ∧ d.Has k

/-- A byte of the bitmap lies in the frame. -/
def BitmapFrame : Prop :=
  bitmapBuffer map / pageSize ≤ k ∧ k * pageSize < bitmapBuffer map + bitmapSize map

/-- The frame is one of those that are locked for the bitmap. -/
def LockedFrame : Prop :=
  bitmapBuffer map / pageSize ≤ k ∧
    k < bitmapBuffer map / pageSize + (bitmapSize map / pageSize + 1)

instance : Decidable (UsableFrame map k) :=
  inferInstanceAs (Decidable (∃ d ∈ map, d.usable = true ∧ d.Has k))

instance : Decidable (BitmapFrame map k) :=
  inferInstanceAs (Decidable (_ ∧ _))

instance : Decidable (LockedFrame map k) :=
  inferInstanceAs (Decidable (_ ∧ _))

end

namespace FrameAllocator

theorem unreserveUsable_used (fa : FrameAllocator) (map : List EfiMemoryDescriptor) (k : Nat) :
    (fa.unreserveUsable map).used k = (fa.used k && !decide (UsableFrame map k)) ∧
      (fa.unreserveUsable map).maxIndex = fa.maxIndex ∧
      (fa.hint = 0 → (fa.unreserveUsable map).hint = 0) := by
  induction map generalizing fa with
  | nil => simp [unreserveUsable, UsableFrame]
  | cons d map ih =>
    have hstep : fa.unreserveUsable (d :: map) =
        (if d.usable then fa.unreservePages d.physAddr d.numPages else fa).unreserveUsable map := rfl
    have hcons : UsableFrame (d :: map) k ↔ (d.usable ∧ d.Has k) ∨ UsableFrame map k := by
      simp [UsableFrame]
    rw [hstep]
    by_cases hd : d.usable
    · rw [if_pos hd, unreservePages_eq]
      obtain ⟨hused, hmax, hhint⟩ := ih (fa.freePages d.physAddr d.numPages)
      refine ⟨?_, by rw [hmax, freePages_maxIndex], ?_⟩
      · rw [hused, freePages_frame, freePages_used, Bool.and_assoc, ← Bool.not_or, ← Bool.decide_or]
        congr 2
        apply decide_eq_decide.mpr
        rw [hcons, EfiMemoryDescriptor.Has]
        simp [hd]
      · intro hzero
        have hle := freePages_hint_le fa d.physAddr d.numPages
        exact hhint (by omega)
    rw [if_neg hd]
    obtain ⟨hused, hmax, hhint⟩ := ih fa
    refine ⟨?_, hmax, hhint⟩
    rw [hused]
    congr 2
    apply decide_eq_decide.mpr
    rw [hcons]
    simp [hd]

variable {map : List EfiMemoryDescriptor} {behind : Nat → Bool}

@[simp] theorem readEfiMemoryMap_maxIndex :
    (readEfiMemoryMap map behind).maxIndex = bitmapSize map * 8 := by
  simp only [readEfiMemoryMap, lockPagesAt_eq, reservePages_eq]
  rw [(lockPages_used 0 (.inr (Nat.zero_le _))).2, (lockPages_used 0 (.inr (Nat.zero_le _))).2,
    (unreserveUsable_used _ map 0).2.1, (lockPages_used 0 (.inr (Nat.zero_le _))).2]
  rfl

/-- The bitmap after boot. -/
theorem used_readEfiMemoryMap {k : Nat} (hk : k < bitmapSize map * 8) :
    (readEfiMemoryMap map behind).used k =
      ((decide (k ≤ getMemorySize map / pageSize) && !decide (UsableFrame map k)) ||
        decide (k < 256) || decide (LockedFrame map k)) := by
  have hmax : (initBitmap (bitmapSize map) behind).maxIndex = bitmapSize map * 8 := rfl
  have hinit : (initBitmap (bitmapSize map) behind).used k = false := by
    rw [used, hmax, if_neg (Nat.not_lt.mpr (Nat.le_of_lt hk))]
    exact if_pos hk
  simp only [readEfiMemoryMap, lockPagesAt_eq, reservePages_eq, Nat.zero_div]
  generalize initBitmap (bitmapSize map) behind = fa at *
  -- the four passes, from the last one back
  obtain ⟨hused1, hmax1⟩ := @lockPages_used fa 0 (getMemorySize map / pageSize + 1) k
    (.inr (by rw [hmax]; omega))
  generalize fa.lockPages 0 _ = fa1 at *
  obtain ⟨hused2, hmax2, -⟩ := unreserveUsable_used fa1 map k
  obtain ⟨hused3, hmax3⟩ := @lockPages_used (fa1.unreserveUsable map) 0 256 k
    (.inr (by rw [hmax2]; omega))
  rw [(lockPages_used k (.inr (by rw [hmax3]; omega))).1, hused3, hused2, hused1, hinit,
    Bool.false_or]
  have hpages : decide (0 ≤ k ∧ k < 0 + (getMemorySize map / pageSize + 1)) =
      decide (k ≤ getMemorySize map / pageSize) := decide_eq_decide.mpr (by omega)
  have hlow : decide (0 ≤ k ∧ k < 0 + 256) = decide (k < 256) := decide_eq_decide.mpr (by omega)
  have hlocked : decide (bitmapBuffer map / pageSize ≤ k ∧
      k < bitmapBuffer map / pageSize + (bitmapSize map / pageSize + 1)) =
      decide (LockedFrame map k) := decide_eq_decide.mpr Iff.rfl
  rw [hpages, hlow, hlocked]

theorem hint_readEfiMemoryMap : (readEfiMemoryMap map behind).hint = 0 := by
  simp only [readEfiMemoryMap, lockPagesAt_eq, reservePages_eq, lockPages_hint]
  apply (unreserveUsable_used _ map 0).2.2
  rw [lockPages_hint]
  rfl

theorem zero_used_readEfiMemoryMap : (readEfiMemoryMap map behind).used 0 := by
  rw [used_readEfiMemoryMap (Nat.mul_pos (Nat.succ_pos _) (by decide))]
  simp

/-! ## What requests can return -/

/-- Some sequence of requests returns the frame. -/
def CanReturn (fa : FrameAllocator) (k : Nat) : Prop :=
  ∃ calls : List FrameCall, (∀ c ∈ calls, c = .requestPage ∨ ∃ n, c = .requestPages n) ∧
    k ∈ (final step ⟨fa, []⟩ calls).out

/-- Requests mark frames and list those they return, which were free. -/
structure Requested (fa : FrameAllocator) (st : FrameLedger) : Prop where
  maxIndex : st.fa.maxIndex = fa.maxIndex
  mono : ∀ k, fa.used k = true → st.fa.used k = true
  was : ∀ k ∈ st.out, k < fa.maxIndex ∧ fa.used k = false

theorem Requested.grant {fa : FrameAllocator} {st : FrameLedger} (h : Requested fa st) (n : Nat) :
    Requested fa (st.grant (st.fa.requestPages n) n).1 := by
  refine ⟨?_, fun k hk => requestPages_mono (h.mono k hk), ?_⟩
  · show (st.fa.requestPages n).1.maxIndex = fa.maxIndex
    rw [requestPages_maxIndex]
    exact h.maxIndex
  intro k hk
  dsimp only [FrameLedger.grant] at hk
  split at hk
  · exact h.was k hk
  next hne =>
  rcases List.mem_append.mp hk with hk | hk
  · obtain ⟨i, hi, hgranted⟩ := requestPages_ok hne
    obtain ⟨j, hj, rfl⟩ := List.mem_map.mp hk
    have hj : j < n := List.mem_range.mp hj
    rw [hi, Nat.mul_div_cancel _ (by decide)]
    obtain ⟨hfree, hlt⟩ := hgranted.free (i + j) (by omega) (by omega)
    refine ⟨h.maxIndex ▸ hlt, ?_⟩
    by_contra hused
    rw [Bool.not_eq_false] at hused
    rw [h.mono _ hused] at hfree
    cases hfree
  · exact h.was k hk

theorem CanReturn.free {fa : FrameAllocator} {k : Nat} (h : fa.CanReturn k) :
    k < fa.maxIndex ∧ fa.used k = false := by
  obtain ⟨calls, hcalls, hk⟩ := h
  have hrun : ∀ (calls : List FrameCall) (st : FrameLedger), Requested fa st →
      (∀ c ∈ calls, c = .requestPage ∨ ∃ n, c = .requestPages n) →
      Requested fa (final step st calls) := by
    intro calls
    induction calls with
    | nil => exact fun st hst _ => hst
    | cons c calls ih =>
      intro st hst hcalls
      refine ih _ ?_ fun c' hc' => hcalls c' (List.mem_cons_of_mem c hc')
      rcases hcalls c List.mem_cons_self with rfl | ⟨n, rfl⟩
      · exact hst.grant 1
      · exact hst.grant n
  have hstart : Requested fa ⟨fa, []⟩ := ⟨rfl, fun _ h => h, fun k hk => by cases hk⟩
  exact (hrun calls _ hstart hcalls).was k hk

/-- The frames of the ledger stay in it while there are only requests. -/
theorem mem_out_of_requests {k : Nat} {n : Nat} {st : FrameLedger} (hk : k ∈ st.out) :
    k ∈ (final step st (List.replicate n .requestPage)).out := by
  induction n generalizing st with
  | zero => exact hk
  | succ n ih =>
    rw [List.replicate_succ, final_cons]
    apply ih
    dsimp only [step, FrameLedger.grant]
    split
    · exact hk
    · exact List.mem_append_right _ hk

/-- As many requests as there are free frames return every one of them. -/
theorem requests_return_all {k : Nat} {n : Nat} :
    ∀ st : FrameLedger, st.fa.WF → st.fa.freeFrames.card = n → k ∈ st.fa.freeFrames →
      k ∈ (final step st (List.replicate n .requestPage)).out := by
  induction n with
  | zero =>
    intro st _ hcard hk
    rw [Finset.card_eq_zero.mp hcard] at hk
    cases hk
  | succ n ih =>
    intro st hwf hcard hk
    have hne : st.fa.requestPage.2 ≠ 0 := requestPage_succeeds hwf (by omega)
    obtain ⟨i, hi, hgranted⟩ := requestPage_ok hne
    have hout : (step st .requestPage).1.out = i :: st.out := by
      dsimp only [step, FrameLedger.grant]
      rw [if_neg hne, hi, Nat.mul_div_cancel _ (by decide)]
      rfl
    rw [List.replicate_succ, final_cons]
    by_cases hki : k = i
    · apply mem_out_of_requests
      rw [hout, hki]
      exact List.mem_cons_self
    apply ih
    · exact requestPage_wf hwf
    · have hcard' := hgranted.freeFrames
      show st.fa.requestPage.1.freeFrames.card = n
      omega
    simp only [freeFrames, Finset.mem_filter, Finset.mem_range] at hk ⊢
    show k < st.fa.requestPage.1.maxIndex ∧ st.fa.requestPage.1.used k = false
    rw [hgranted.maxIndex, hgranted.used, hk.2, decide_eq_false (by omega)]
    exact ⟨hk.1, rfl⟩

/-- The free frames of a well-formed allocator are the ones requests can return. -/
theorem canReturn_iff {fa : FrameAllocator} (hwf : fa.WF) {k : Nat} :
    fa.CanReturn k ↔ k < fa.maxIndex ∧ fa.used k = false := by
  constructor
  · exact CanReturn.free
  rintro ⟨hlt, hfree⟩
  refine ⟨List.replicate fa.freeFrames.card .requestPage, ?_, ?_⟩
  · intro c hc
    exact .inl (List.eq_of_mem_replicate hc)
  · apply requests_return_all _ hwf rfl
    simp [freeFrames, hlt, hfree]

end FrameAllocator

/-! ## Usable memory and nothing else -/

open FrameAllocator

/-- After boot the allocator hands out the usable memory from 1 MiB on, without the bitmap, and
nothing else. -/
def AllocatesUsable (map : List EfiMemoryDescriptor) (behind : Nat → Bool) : Prop :=
  ∀ k, (readEfiMemoryMap map behind).CanReturn k ↔ UsableFrame map k ∧ 256 ≤ k ∧ ¬ BitmapFrame map k

/-- The memory map does not show the three roundings:
the frames between the number of pages and the last bit of the bitmap are usable (or not handed
out anyway), all usable pages are below that bit, and a bitmap that ends on a page boundary is not
followed by a usable page. -/
structure Regular (map : List EfiMemoryDescriptor) : Prop where
  tail : ∀ k, getMemorySize map / pageSize < k → k < bitmapSize map * 8 → 256 ≤ k →
    ¬ LockedFrame map k → UsableFrame map k
  top : ∀ k, UsableFrame map k → 256 ≤ k → ¬ BitmapFrame map k → k < bitmapSize map * 8
  spare : bitmapSize map % pageSize = 0 →
    256 ≤ bitmapBuffer map / pageSize + bitmapSize map / pageSize →
      ¬ UsableFrame map (bitmapBuffer map / pageSize + bitmapSize map / pageSize)

/-- Every segment that the search has picked is page-aligned. -/
theorem SegSearch.visit_aligned {s : SegSearch} (h : pageSize ∣ s.largest ∧ pageSize ∣ s.bitmapSeg)
    {d : EfiMemoryDescriptor} :
    pageSize ∣ (s.visit d).largest ∧ pageSize ∣ (s.visit d).bitmapSeg := by
  have hd := d.aligned
  unfold visit
  dsimp only
  split_ifs <;> exact ⟨by first | exact hd | exact h.1, by first | exact hd | exact h.2⟩

section

variable (map : List EfiMemoryDescriptor)

include map

theorem bitmapBuffer_aligned : pageSize ∣ bitmapBuffer map := by
  have hfold : ∀ (map : List EfiMemoryDescriptor) (s : SegSearch),
      pageSize ∣ s.largest ∧ pageSize ∣ s.bitmapSeg →
      pageSize ∣ (map.foldl SegSearch.visit s).largest ∧
        pageSize ∣ (map.foldl SegSearch.visit s).bitmapSeg := by
    intro map
    induction map with
    | nil => exact fun s h => h
    | cons d map ih => exact fun s h => ih _ (SegSearch.visit_aligned h)
  obtain ⟨hlargest, hseg⟩ := hfold map ⟨0, 0, 0, 0⟩ ⟨Nat.dvd_zero _, Nat.dvd_zero _⟩
  unfold bitmapBuffer
  dsimp only
  split
  · exact hlargest
  · exact hseg

/-- The locked frames are those of the bitmap, and one more if it ends on a page boundary. -/
theorem lockedFrame_iff (k : Nat) :
    LockedFrame map k ↔ BitmapFrame map k ∨ (bitmapSize map % pageSize = 0 ∧
        k = bitmapBuffer map / pageSize + bitmapSize map / pageSize) := by
  obtain ⟨b, hb⟩ := bitmapBuffer_aligned map
  have hdiv : bitmapBuffer map / pageSize = b := by
    rw [hb, Nat.mul_div_cancel_left _ (by decide)]
  rw [LockedFrame, BitmapFrame, hdiv, hb]
  generalize bitmapSize map = s
  simp only [pageSize]
  omega

theorem canReturn_readEfiMemoryMap (behind : Nat → Bool)
    (k : Nat) : (readEfiMemoryMap map behind).CanReturn k ↔ k < bitmapSize map * 8 ∧
      (k ≤ getMemorySize map / pageSize → UsableFrame map k) ∧ 256 ≤ k ∧ ¬ LockedFrame map k := by
  have hwf : (readEfiMemoryMap map behind).WF := by
    refine ⟨zero_used_readEfiMemoryMap, ?_⟩
    intro i hi
    rw [hint_readEfiMemoryMap] at hi
    omega
  rw [canReturn_iff hwf, readEfiMemoryMap_maxIndex]
  refine and_congr_right fun hlt => ?_
  rw [used_readEfiMemoryMap hlt]
  simp only [Bool.or_eq_false_iff, Bool.and_eq_false_iff, decide_eq_false_iff_not,
    Bool.not_eq_false', decide_eq_true_eq, and_assoc, Nat.not_lt, imp_iff_not_or]

/-- The allocator hands out the usable memory and nothing else exactly for the regular maps. -/
theorem allocatable_iff_regular (behind : Nat → Bool) :
    AllocatesUsable map behind ↔ Regular map := by
  constructor
  · intro h
    refine ⟨?_, ?_, ?_⟩
    · intro k hlt hmax hlow hlocked
      have hreturn : (readEfiMemoryMap map behind).CanReturn k :=
        (canReturn_readEfiMemoryMap map behind k).mpr
          ⟨hmax, fun hle => absurd hle (by omega), hlow, hlocked⟩
      exact ((h k).mp hreturn).1
    · intro k husable hlow hbitmap
      exact ((canReturn_readEfiMemoryMap map behind k).mp ((h k).mpr ⟨husable, hlow, hbitmap⟩)).1
    -- the page behind the bitmap is locked, and holds no byte of it
    intro hsize hlow husable
    have hbitmap : ¬ BitmapFrame map (bitmapBuffer map / pageSize + bitmapSize map / pageSize) := by
      rintro ⟨-, hlt⟩
      rw [Nat.add_mul, Nat.div_mul_cancel (bitmapBuffer_aligned map),
        Nat.div_mul_cancel (Nat.dvd_of_mod_eq_zero hsize)] at hlt
      exact Nat.lt_irrefl _ hlt
    have hreturn := (h _).mpr ⟨husable, hlow, hbitmap⟩
    have hlocked := ((canReturn_readEfiMemoryMap map behind _).mp hreturn).2.2.2
    exact hlocked ((lockedFrame_iff map _).mpr (.inr ⟨hsize, rfl⟩))
  intro h k
  rw [canReturn_readEfiMemoryMap]
  constructor
  · rintro ⟨hmax, hpage, hlow, hlocked⟩
    refine ⟨?_, hlow, fun hbitmap => hlocked ((lockedFrame_iff map k).mpr (.inl hbitmap))⟩
    by_cases hle : k ≤ getMemorySize map / pageSize
    · exact hpage hle
    · exact h.tail k (by omega) hmax hlow hlocked
  rintro ⟨husable, hlow, hbitmap⟩
  refine ⟨h.top k husable hlow hbitmap, fun _ => husable, hlow, fun hlocked => ?_⟩
  rcases (lockedFrame_iff map k).mp hlocked with hin | ⟨hsize, rfl⟩
  · exact hbitmap hin
  · exact h.spare hsize hlow husable

end

/-- Memory without a hole whose last page fills the last byte of the bitmap. -/
example : Regular [⟨7, 0, 1023, by decide, by decide⟩] where
  tail k hlt hmax := by
    have hlt : 1023 < k := hlt
    have hmax : k < 1024 := hmax
    omega
  top k husable _ _ := by
    obtain ⟨d, hd, -, hhas⟩ := husable
    obtain rfl := List.mem_singleton.mp hd
    have hlt : k < 0 + 1023 := hhas.2
    show k < 1024
    omega
  spare hsize := absurd hsize (by decide)

/-- 4 MiB of memory at 0, and 2 MiB behind a hole, at 4 GiB. -/
def holeMap : List EfiMemoryDescriptor :=
  [⟨7, 0, 1024, by decide, by decide⟩, ⟨7, 0x100000000, 512, by decide, by decide⟩]

/-- With a hole in the map, frame 1537 is handed out, which no descriptor has, and no page of the
memory behind the hole is. -/
theorem hole_frame_returned :
    ((readEfiMemoryMap holeMap fun _ => false).CanReturn 1537 ∧ ∀ d ∈ holeMap, ¬ d.Has 1537) ∧
      (UsableFrame holeMap 0x100000 ∧ ¬ BitmapFrame holeMap 0x100000 ∧
        ¬ (readEfiMemoryMap holeMap fun _ => false).CanReturn 0x100000) := by
  refine ⟨⟨?_, by decide⟩, by decide, by decide, ?_⟩
  · rw [canReturn_readEfiMemoryMap]
    decide
  · rw [canReturn_readEfiMemoryMap]
    decide

end Vespera.Memory
