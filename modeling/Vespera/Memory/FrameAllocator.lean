import Mathlib.Data.List.Basic
import Mathlib.Data.Finset.Card
import Mathlib.Data.Finset.Range
import Mathlib.Logic.Function.Basic

/-! # The page frame allocator

`kernel/paging/page_frame_allocator.cpp` over its bitmap (`kernel/paging/bitmap.cpp`):
one bit per 4 KiB frame and a hint below which `request_page` does not look.
Addresses are physical; 0 stands for "no frame", so the allocator relies on
frame 0 being reserved.

The rest of the development uses the two facts an allocator is for:

* `requestPage_ok`, `requestPages_ok`: a returned frame was free and is now
  used, and nothing else changes;
* `freePage_used`, `freePages_used`: freeing clears the given frames only;
* `requestPage_succeeds`: in a well-formed allocator a request fails only when
  there is no free frame;
* `HasRun.requestPages_ne_zero`: a request that meets a free stretch does not fail.
-/

namespace Vespera.Memory

abbrev pageSize : Nat := 4096

/-- The bitmap and the hint. -/
structure FrameAllocator where
  bits : Nat → Bool
  /-- `page_bitmap.size * 8`. -/
  maxIndex : Nat
  /-- `page_bitmap_index_`. -/
  hint : Nat

namespace FrameAllocator

variable {fa : FrameAllocator} {i n : Nat} {k : Nat}

variable (fa)

/-- `Bitmap::get`. -/
def used (i : Nat) : Bool := if i > fa.maxIndex then false else fa.bits i

def set (i : Nat) (v : Bool) : FrameAllocator :=
  if i > fa.maxIndex then fa else { fa with bits := Function.update fa.bits i v }

/-- `lock_page_nolock` of the frame with an index. -/
def lockPage (i : Nat) : FrameAllocator :=
  if fa.used i then fa else fa.set i true

/-- `free_page_nolock`. -/
def freePage (addr : Nat) : FrameAllocator :=
  let i := addr / pageSize
  if !fa.used i then fa
  else
    let fa := fa.set i false
    if fa.hint > i then { fa with hint := i } else fa

def freePages (addr : Nat) (n : Nat) : FrameAllocator :=
  (List.range n).foldl (fun fa t => fa.freePage (addr + t * pageSize)) fa

variable {fa}

/-- The scan of `request_page_nolock`: the first index from `i` on that is not
used, among the next `fuel` ones. -/
def scan (fa : FrameAllocator) : Nat → Nat → Nat
  | 0, i => i
  | fuel + 1, i => if fa.used i then fa.scan fuel (i + 1) else i

/-- `request_page`: the allocator and the frame, 0 when there is none. -/
def requestPage (fa : FrameAllocator) : FrameAllocator × Nat :=
  let i := fa.scan (fa.maxIndex - fa.hint) fa.hint
  let fa := { fa with hint := i }
  if i < fa.maxIndex then (fa.lockPage i, i * pageSize) else (fa, 0)

/-- The inner loop of `request_pages`: the first of the `n` indices from `i` on
that is out of range or used. -/
def firstTaken (fa : FrameAllocator) (i n : Nat) : Option Nat :=
  (List.range n).find? fun j => decide (fa.maxIndex ≤ i + j) || fa.used (i + j)

/-- The outer loop of `request_pages`, which skips past the index that was taken. -/
def findRun (fa : FrameAllocator) (n : Nat) : Nat → Nat → Option Nat
  | 0, _ => none
  | fuel + 1, i =>
    if i < fa.maxIndex then
      match fa.firstTaken i n with
      | none => some i
      | some j => fa.findRun n fuel (i + j + 1)
    else none

/-- Lock `n` frames from index `i` on. -/
def lockPages (fa : FrameAllocator) (i n : Nat) : FrameAllocator :=
  (List.range n).foldl (fun fa j => fa.lockPage (i + j)) fa

def requestPages (fa : FrameAllocator) (n : Nat) : FrameAllocator × Nat :=
  if n = 0 then (fa, 0)
  else if n = 1 then fa.requestPage
  else match fa.findRun n (fa.maxIndex + 1) 0 with
  | none => (fa, 0)
  | some i => (fa.lockPages i n, i * pageSize)

/-! ## Single operations -/

@[simp] theorem set_maxIndex {fa : FrameAllocator} {i : Nat} {v : Bool} :
    (fa.set i v).maxIndex = fa.maxIndex := by
  unfold set
  split <;> rfl

@[simp] theorem set_hint {fa : FrameAllocator} {i : Nat} {v : Bool} :
    (fa.set i v).hint = fa.hint := by
  unfold set
  split <;> rfl

theorem set_used_self (h : i ≤ fa.maxIndex) {v : Bool} : (fa.set i v).used i = v := by
  have hle : ¬ i > fa.maxIndex := by omega
  simp [set, used, hle]

theorem set_used_of_ne (h : k ≠ i) {v : Bool} : (fa.set i v).used k = fa.used k := by
  unfold set
  split
  · rfl
  · simp [used, h]

@[simp] theorem lockPage_maxIndex {fa : FrameAllocator} {i : Nat} :
    (fa.lockPage i).maxIndex = fa.maxIndex := by
  unfold lockPage
  split
  · rfl
  · exact set_maxIndex

/-- Locking sets one bit. -/
theorem lockPage_used (hi : i ≤ fa.maxIndex) :
    (fa.lockPage i).used k = (fa.used k || decide (k = i)) := by
  unfold lockPage
  by_cases hused : fa.used i
  · rw [if_pos hused]
    by_cases hk : k = i
    · subst hk
      simp [hused]
    · simp [hk]
  rw [if_neg hused]
  by_cases hk : k = i
  · subst hk
    simp [set_used_self hi]
  · simp [hk, set_used_of_ne hk]

@[simp] theorem freePage_maxIndex {fa : FrameAllocator} {addr : Nat} :
    (fa.freePage addr).maxIndex = fa.maxIndex := by
  unfold freePage
  dsimp only
  split_ifs <;> simp

/-- A frame beyond the bitmap is never used. -/
theorem le_maxIndex_of_used (h : fa.used i) : i ≤ fa.maxIndex := by
  by_contra hgt
  have : i > fa.maxIndex := by omega
  simp [used, this] at h

/-- Freeing clears one bit. -/
theorem freePage_used {addr : Nat} :
    (fa.freePage addr).used k = (fa.used k && !decide (k = addr / pageSize)) := by
  unfold freePage
  dsimp only
  by_cases hused : fa.used (addr / pageSize)
  · have hbits : (fa.set (addr / pageSize) false).used k =
        (fa.used k && !decide (k = addr / pageSize)) := by
      by_cases hk : k = addr / pageSize
      · rw [hk, set_used_self (le_maxIndex_of_used hused)]
        simp
      · rw [set_used_of_ne hk]
        simp [hk]
    rw [if_neg (by simp [hused])]
    split
    · exact hbits
    · exact hbits
  -- the frame was not used: nothing happens
  rw [if_pos (by simp [hused])]
  by_cases hk : k = addr / pageSize
  · subst hk
    simp [hused]
  · simp [hk]

/-! ## Ranges -/

theorem lockPages_succ : fa.lockPages i (n + 1) = (fa.lockPages i n).lockPage (i + n) := by
  simp [lockPages, List.range_succ]

theorem freePages_succ {addr : Nat} :
    fa.freePages addr (n + 1) = (fa.freePages addr n).freePage (addr + n * pageSize) := by
  simp [freePages, List.range_succ]

theorem lockPages_used (k : Nat) (h : i + n ≤ fa.maxIndex + 1 ∨ k ≤ fa.maxIndex) :
    (fa.lockPages i n).used k = (fa.used k || decide (i ≤ k ∧ k < i + n)) ∧
      (fa.lockPages i n).maxIndex = fa.maxIndex := by
  induction n with
  | zero =>
    have hno : ¬ (i ≤ k ∧ k < i + 0) := by omega
    rw [decide_eq_false hno, Bool.or_false]
    exact ⟨rfl, rfl⟩
  | succ n ih =>
    obtain ⟨hused, hmax⟩ := ih (by omega)
    rw [lockPages_succ, lockPage_maxIndex]
    refine ⟨?_, hmax⟩
    by_cases hin : i + n ≤ fa.maxIndex
    · rw [lockPage_used (by rw [hmax]; exact hin), hused, Bool.or_assoc, ← Bool.decide_or]
      congr 1
      exact decide_eq_decide.mpr (by omega)
    -- a frame behind the bitmap is not marked, and is not the one we look at
    have hbehind : (fa.lockPages i n).lockPage (i + n) = fa.lockPages i n := by
      unfold lockPage set
      rw [if_pos (show i + n > (fa.lockPages i n).maxIndex by omega)]
      split <;> rfl
    rw [hbehind, hused]
    congr 1
    exact decide_eq_decide.mpr (by omega)

/-- Freeing `n` frames from index `i` on clears exactly these. -/
theorem freePages_used :
    (fa.freePages (i * pageSize) n).used k = (fa.used k && !decide (i ≤ k ∧ k < i + n)) := by
  induction n generalizing k with
  | zero =>
    have hno : ¬ (i ≤ k ∧ k < i + 0) := by omega
    rw [decide_eq_false hno, Bool.not_false, Bool.and_true]
    rfl
  | succ n ih =>
    have hidx : (i * pageSize + n * pageSize) / pageSize = i + n := by
      rw [← Nat.add_mul, Nat.mul_div_cancel _ (by decide)]
    rw [freePages_succ, freePage_used, ih, hidx, Bool.and_assoc]
    congr 1
    rw [← Bool.not_or, ← Bool.decide_or]
    congr 1
    exact decide_eq_decide.mpr (by omega)

@[simp] theorem freePages_maxIndex {fa : FrameAllocator} {addr n : Nat} :
    (fa.freePages addr n).maxIndex = fa.maxIndex := by
  induction n with
  | zero => rfl
  | succ n ih => rw [freePages_succ, freePage_maxIndex, ih]

/-! ## Requests -/

/-- What a request for `n` frames may do: nothing, or hand out `n` free frames. -/
structure Granted (fa fa' : FrameAllocator) (i n : Nat) : Prop where
  free : ∀ k, i ≤ k → k < i + n → fa.used k = false ∧ k < fa.maxIndex
  used : ∀ k, fa'.used k = (fa.used k || decide (i ≤ k ∧ k < i + n))
  maxIndex : fa'.maxIndex = fa.maxIndex

theorem scan_spec (fa : FrameAllocator) (fuel i : Nat) :
    i ≤ fa.scan fuel i ∧ fa.scan fuel i ≤ i + fuel ∧
      (fa.scan fuel i < i + fuel → fa.used (fa.scan fuel i) = false) ∧
      ∀ k, i ≤ k → k < fa.scan fuel i → fa.used k := by
  induction fuel generalizing i with
  | zero =>
    refine ⟨le_rfl, le_rfl, ?_, ?_⟩
    · intro h
      simp [scan] at h
    · intro k hk hk'
      simp only [scan] at hk'
      omega
  | succ fuel ih =>
    unfold scan
    by_cases hused : fa.used i
    · rw [if_pos hused]
      obtain ⟨hle, hub, hfree, htaken⟩ := ih (i + 1)
      refine ⟨by omega, by omega, ?_, ?_⟩
      · intro h
        exact hfree (by omega)
      intro k hk hk'
      by_cases hki : k = i
      · rw [hki]
        exact hused
      · exact htaken k (by omega) hk'
    rw [if_neg hused]
    refine ⟨le_rfl, by omega, ?_, ?_⟩
    · intro _
      simpa using hused
    · intro k hk hk'
      omega

/-- A free frame is handed out. -/
theorem lockPage_granted {h : Nat} (hfree : fa.used i = false) (hlt : i < fa.maxIndex) :
    Granted fa ({ fa with hint := h }.lockPage i) i 1 := by
  refine ⟨?_, ?_, lockPage_maxIndex⟩
  · intro k hk hk'
    obtain rfl : k = i := by omega
    exact ⟨hfree, hlt⟩
  · intro k
    rw [lockPage_used (by dsimp only; omega)]
    congr 1
    exact decide_eq_decide.mpr (by omega)

theorem firstTaken_none (h : fa.firstTaken i n = none) :
    ∀ k, i ≤ k → k < i + n → fa.used k = false ∧ k < fa.maxIndex := by
  intro k hk hk'
  have hj := List.find?_eq_none.mp h (k - i) (by simp; omega)
  rw [show i + (k - i) = k by omega] at hj
  simp only [Bool.or_eq_true, decide_eq_true_eq, not_or, Bool.not_eq_true, not_le] at hj
  exact ⟨hj.2, hj.1⟩

theorem findRun_some {fuel r : Nat} (h : fa.findRun n fuel i = some r) :
    ∀ k, r ≤ k → k < r + n → fa.used k = false ∧ k < fa.maxIndex := by
  induction fuel generalizing i with
  | zero => simp [findRun] at h
  | succ fuel ih =>
    unfold findRun at h
    split at h
    · split at h
      · rename_i hnone
        cases h
        exact firstTaken_none hnone
      · exact ih h
    · cases h

/-- A free stretch is handed out. -/
theorem lockPages_granted {fuel r : Nat} (h : fa.findRun n fuel i = some r) (hn : 0 < n) :
    Granted fa (fa.lockPages r n) r n := by
  have hfree := findRun_some h
  have htop := (hfree (r + n - 1) (by omega) (by omega)).2
  exact ⟨hfree, fun k => (lockPages_used k (by omega)).1, (lockPages_used 0 (by omega)).2⟩

/-- The frames that `request_pages` hands out were free, and are now used; or it takes none. -/
theorem requestPages_cases (fa : FrameAllocator) (n : Nat) :
    (∃ i, (fa.requestPages n).2 = i * pageSize ∧ 0 < n ∧ Granted fa (fa.requestPages n).1 i n) ∨
      ((fa.requestPages n).2 = 0 ∧ (fa.requestPages n).1.maxIndex = fa.maxIndex ∧
        ∀ k, (fa.requestPages n).1.used k = fa.used k) := by
  unfold requestPages
  split
  · exact .inr ⟨rfl, rfl, fun _ => rfl⟩
  split
  · rename_i hone
    subst hone
    obtain ⟨-, -, hfree, -⟩ := scan_spec fa (fa.maxIndex - fa.hint) fa.hint
    unfold requestPage
    dsimp only
    split
    · rename_i hlt
      exact .inl ⟨_, rfl, Nat.one_pos, lockPage_granted (hfree (by omega)) hlt⟩
    · exact .inr ⟨rfl, rfl, fun _ => rfl⟩
  split
  · exact .inr ⟨rfl, rfl, fun _ => rfl⟩
  · rename_i i hrun
    exact .inl ⟨i, rfl, by omega, lockPages_granted hrun (by omega)⟩

theorem requestPages_ok (h : (fa.requestPages n).2 ≠ 0) :
    ∃ i, (fa.requestPages n).2 = i * pageSize ∧ Granted fa (fa.requestPages n).1 i n := by
  rcases requestPages_cases fa n with ⟨i, hi, -, hgranted⟩ | ⟨hzero, -⟩
  · exact ⟨i, hi, hgranted⟩
  · exact absurd hzero h

theorem requestPage_ok (h : fa.requestPage.2 ≠ 0) :
    ∃ i, fa.requestPage.2 = i * pageSize ∧ Granted fa fa.requestPage.1 i 1 :=
  requestPages_ok (n := 1) h

/-- A request gives nothing back. -/
theorem requestPages_mono (h : fa.used k) : (fa.requestPages n).1.used k := by
  rcases requestPages_cases fa n with ⟨i, -, -, hgranted⟩ | ⟨-, -, hsame⟩
  · rw [hgranted.used, h]
    rfl
  · rwa [hsame]

/-! ## Well-formed allocators -/

/-- Frame 0 is reserved (`init` reserves the low megabyte), and no free frame
lies below the hint. -/
structure WF (fa : FrameAllocator) : Prop where
  zero_used : fa.used 0 = true
  hint : ∀ i, i < fa.hint → i < fa.maxIndex → fa.used i = true

/-- The frames that can be handed out. -/
def freeFrames (fa : FrameAllocator) : Finset Nat :=
  (Finset.range fa.maxIndex).filter fun i => fa.used i = false

/-- Handing out one frame takes it from the free ones. -/
theorem Granted.freeFrames {fa' : FrameAllocator} (h : Granted fa fa' i 1) :
    fa'.freeFrames.card + 1 = fa.freeFrames.card := by
  have hmem : i ∈ fa.freeFrames := by
    obtain ⟨hfree, hlt⟩ := h.free i le_rfl (by omega)
    simp [FrameAllocator.freeFrames, hfree, hlt]
  have herase : fa'.freeFrames = fa.freeFrames.erase i := by
    ext k
    simp only [FrameAllocator.freeFrames, Finset.mem_filter, Finset.mem_range, Finset.mem_erase,
      h.maxIndex, h.used k, Bool.or_eq_false_iff, decide_eq_false_iff_not]
    constructor
    · rintro ⟨hlt, hfree, hne⟩
      exact ⟨by omega, hlt, hfree⟩
    · rintro ⟨hne, hlt, hfree⟩
      exact ⟨hlt, hfree, by omega⟩
  rw [herase, Finset.card_erase_add_one hmem]

/-- With a free frame left, `request_page` finds one. -/
theorem requestPage_succeeds (hwf : fa.WF) (h : 0 < fa.freeFrames.card) : fa.requestPage.2 ≠ 0 := by
  obtain ⟨k, hk⟩ := Finset.card_pos.mp h
  simp only [freeFrames, Finset.mem_filter, Finset.mem_range] at hk
  obtain ⟨hklt, hkfree⟩ := hk
  obtain ⟨hle, -, -, htaken⟩ := scan_spec fa (fa.maxIndex - fa.hint) fa.hint
  have hhint : fa.hint ≤ k := by
    by_contra hlt
    have := hwf.hint k (by omega) hklt
    simp [hkfree] at this
  -- the scan stops at the latest at the free frame
  have hstop : fa.scan (fa.maxIndex - fa.hint) fa.hint ≤ k := by
    by_contra hlt
    have := htaken k hhint (by omega)
    simp [hkfree] at this
  have hpos : fa.scan (fa.maxIndex - fa.hint) fa.hint ≠ 0 := by
    intro hzero
    obtain ⟨-, -, hfree, -⟩ := scan_spec fa (fa.maxIndex - fa.hint) fa.hint
    have := hfree (by omega)
    rw [hzero, hwf.zero_used] at this
    cases this
  unfold requestPage
  dsimp only
  rw [if_pos (by omega)]
  exact Nat.mul_ne_zero hpos (by decide)

/-- No free frame lies below the hint. -/
def Below (fa : FrameAllocator) : Prop := ∀ i, i < fa.hint → i < fa.maxIndex → fa.used i = true

@[simp] theorem lockPage_hint {fa : FrameAllocator} {i : Nat} : (fa.lockPage i).hint = fa.hint := by
  unfold lockPage
  split
  · rfl
  · exact set_hint

theorem lockPage_mono (h : fa.used k) : (fa.lockPage i).used k := by
  by_cases hi : i ≤ fa.maxIndex
  · rw [lockPage_used hi, h]
    rfl
  · unfold lockPage set
    rw [if_pos (Nat.lt_of_not_le hi), ite_self]
    exact h

theorem lockPage_below (h : fa.Below) : (fa.lockPage i).Below := by
  intro k hk hlt
  rw [lockPage_hint] at hk
  rw [lockPage_maxIndex] at hlt
  exact lockPage_mono (h k hk hlt)

theorem foldl_below {f : FrameAllocator → Nat → FrameAllocator}
    (hf : ∀ fa t, fa.Below → (f fa t).Below) (h : fa.Below) {ts : List Nat} :
    (ts.foldl f fa).Below := by
  induction ts generalizing fa with
  | nil => exact h
  | cons t ts ih => exact ih (hf fa t h)

/-- The scan leaves only used frames behind. -/
theorem requestPage_below (h : fa.Below) : fa.requestPage.1.Below := by
  obtain ⟨-, -, -, htaken⟩ := scan_spec fa (fa.maxIndex - fa.hint) fa.hint
  have hmoved : Below { fa with hint := fa.scan (fa.maxIndex - fa.hint) fa.hint } := by
    intro i hi hmax
    by_cases hh : i < fa.hint
    · exact h i hh hmax
    · exact htaken i (by omega) hi
  unfold requestPage
  dsimp only
  split
  · exact lockPage_below hmoved
  · exact hmoved

theorem requestPages_below (h : fa.Below) : (fa.requestPages n).1.Below := by
  unfold requestPages
  split
  · exact h
  split
  · exact requestPage_below h
  split
  · exact h
  · exact foldl_below (fun fa t hfa => lockPage_below hfa) h

/-- Freeing moves the hint down to the frame. -/
theorem freePage_below (h : fa.Below) {addr : Nat} : (fa.freePage addr).Below := by
  intro i hi hmax
  rw [freePage_maxIndex] at hmax
  have hle : i < fa.hint ∧ (fa.used (addr / pageSize) → i < addr / pageSize) := by
    unfold freePage at hi
    dsimp only at hi
    split_ifs at hi with hnot hgt
    · simp only [Bool.not_eq_true'] at hnot
      exact ⟨hi, by simp [hnot]⟩
    · rw [set_hint] at hgt
      dsimp only at hi
      exact ⟨by omega, fun _ => hi⟩
    · rw [set_hint] at hgt hi
      exact ⟨hi, fun _ => by omega⟩
  have hused := h i hle.1 hmax
  have hne : i ≠ addr / pageSize := by
    intro heq
    have := hle.2 (heq ▸ hused)
    omega
  rw [freePage_used, hused]
  simpa using hne

theorem lockPages_hint : (fa.lockPages i n).hint = fa.hint := by
  induction n with
  | zero => rfl
  | succ n ih => rw [lockPages_succ, lockPage_hint, ih]

section

variable (hwf : fa.WF)

include hwf

theorem requestPages_wf (n : Nat) : (fa.requestPages n).1.WF :=
  ⟨requestPages_mono hwf.zero_used, requestPages_below hwf.hint⟩

theorem requestPage_wf : fa.requestPage.1.WF := requestPages_wf hwf 1

/-- A failed request takes no frame. -/
theorem requestPages_failed
    (h : (fa.requestPages n).2 = 0) : (fa.requestPages n).1.used k = fa.used k := by
  rcases requestPages_cases fa n with ⟨i, hi, hn, hgranted⟩ | ⟨-, -, hsame⟩
  · -- what is handed out was free, and frame 0 is not
    obtain rfl := (Nat.mul_eq_zero.mp (hi.symm.trans h)).resolve_right (by decide)
    have hfree := (hgranted.free 0 le_rfl (by omega)).1
    rw [hwf.zero_used] at hfree
    cases hfree
  · exact hsame k

theorem freePage_wf {addr : Nat} (h : pageSize ≤ addr) : (fa.freePage addr).WF := by
  refine ⟨?_, freePage_below hwf.hint⟩
  have hpos := Nat.div_pos h (by decide : 0 < pageSize)
  rw [freePage_used, hwf.zero_used]
  simpa using Nat.ne_of_lt hpos

theorem freePages_wf {addr : Nat} (h : pageSize ≤ addr) : (fa.freePages addr n).WF := by
  induction n with
  | zero => exact hwf
  | succ n ih =>
    rw [freePages_succ]
    exact freePage_wf ih (by omega)

end

@[simp] theorem requestPages_maxIndex {fa : FrameAllocator} {n : Nat} :
    (fa.requestPages n).1.maxIndex = fa.maxIndex := by
  rcases requestPages_cases fa n with ⟨i, -, -, hgranted⟩ | ⟨-, hmax, -⟩
  · exact hgranted.maxIndex
  · exact hmax

@[simp] theorem requestPage_maxIndex {fa : FrameAllocator} :
    fa.requestPage.1.maxIndex = fa.maxIndex :=
  requestPages_maxIndex (n := 1)

/-! ## Free stretches -/

/-- From the hint on there is a stretch of `n` free frames, and frame 0 is
reserved.  Both request functions are first-fit, so such a stretch is enough for
requests that come to `n` frames together. -/
def HasRun (fa : FrameAllocator) (n : Nat) : Prop :=
  fa.used 0 = true ∧ ∃ i, i < fa.maxIndex ∧ fa.hint ≤ i ∧
    ∀ j, j < n → i + j < fa.maxIndex ∧ fa.used (i + j) = false

instance (fa : FrameAllocator) (n : Nat) : Decidable (fa.HasRun n) :=
  inferInstanceAs (Decidable (fa.used 0 = true ∧ ∃ i, i < fa.maxIndex ∧ fa.hint ≤ i ∧
    ∀ j, j < n → i + j < fa.maxIndex ∧ fa.used (i + j) = false))

/-- The search for `n` frames does not go past a stretch that is free. -/
theorem findRun_le {fuel g : Nat} (hg : g < fa.maxIndex)
    (hfree : ∀ j, j < n → g + j < fa.maxIndex ∧ fa.used (g + j) = false)
    (hle : i ≤ g) (hfuel : g - i < fuel) : ∃ r, r ≤ g ∧ fa.findRun n fuel i = some r := by
  induction fuel generalizing i with
  | zero => omega
  | succ fuel ih =>
    unfold findRun
    rw [if_pos (by omega)]
    split
    · exact ⟨i, hle, rfl⟩
    -- the index that is taken lies before the stretch, and so does the next start
    rename_i j hj
    have hn : j < n := List.mem_range.mp (List.mem_of_find?_eq_some hj)
    have htaken := List.find?_some hj
    simp only [Bool.or_eq_true, decide_eq_true_eq] at htaken
    have hlt : i + j < g := by
      by_contra hge
      obtain ⟨hmax, hused⟩ := hfree (i + j - g) (by omega)
      rw [show g + (i + j - g) = i + j by omega] at hmax hused
      rcases htaken with hout | hin
      · omega
      · rw [hused] at hin
        cases hin
    exact ih (by omega) (by omega)

/-- A request for `n` frames that meets a free stretch from `i` on takes its
frames at or before `i`, and leaves the hint there. -/
theorem requestPages_first (hn : 0 < n) (hi : i < fa.maxIndex)
    (hhint : fa.hint ≤ i) (hfree : ∀ j, j < n → i + j < fa.maxIndex ∧ fa.used (i + j) = false) :
    ∃ r, r ≤ i ∧ (fa.requestPages n).2 = r * pageSize ∧ (fa.requestPages n).1.hint ≤ i ∧
      Granted fa (fa.requestPages n).1 r n := by
  unfold requestPages
  rw [if_neg (by omega)]
  by_cases hone : n = 1
  · subst hone
    rw [if_pos rfl]
    unfold requestPage
    obtain ⟨-, -, hnot, htaken⟩ := scan_spec fa (fa.maxIndex - fa.hint) fa.hint
    generalize fa.scan (fa.maxIndex - fa.hint) fa.hint = r at *
    have hle : r ≤ i := by
      by_contra hgt
      have hused := htaken i hhint (by omega)
      rw [show i = i + 0 from rfl, (hfree 0 (by omega)).2] at hused
      cases hused
    rw [if_pos (show r < fa.maxIndex by omega)]
    refine ⟨r, hle, rfl, ?_, lockPage_granted (hnot (by omega)) (by omega)⟩
    rw [lockPage_hint]
    exact hle
  rw [if_neg hone]
  obtain ⟨r, hle, hrun⟩ := findRun_le hi hfree (Nat.zero_le i)
    (show i - 0 < fa.maxIndex + 1 by omega)
  rw [hrun]
  refine ⟨r, hle, rfl, ?_, lockPages_granted hrun hn⟩
  rw [lockPages_hint]
  exact hhint

/-- A request takes from a free stretch no more than what it asks for. -/
theorem HasRun.requestPages {m : Nat} (h : fa.HasRun (n + m)) : (fa.requestPages n).1.HasRun m := by
  refine ⟨requestPages_mono h.1, ?_⟩
  obtain ⟨i, hi, hhint, hfree⟩ := h.2
  rcases Nat.eq_zero_or_pos n with hn | hn
  · subst hn
    exact ⟨i, hi, hhint, fun j hj => hfree j (by omega)⟩
  obtain ⟨r, hle, -, hhint', hgranted⟩ :=
    requestPages_first hn hi hhint fun j hj => hfree j (by omega)
  rw [hgranted.maxIndex]
  by_cases hm : m = 0
  · exact ⟨i, hi, hhint', fun j hj => absurd hj (by omega)⟩
  -- what is left starts where the stretch does, or where the grant ends
  have hleft : ∀ k, i ≤ k → r + n ≤ k → k < i + (n + m) →
      k < fa.maxIndex ∧ (fa.requestPages n).1.used k = false := by
    intro k hk hk' htop
    obtain ⟨hmax, hused⟩ := hfree (k - i) (by omega)
    rw [show i + (k - i) = k by omega] at hmax hused
    refine ⟨hmax, ?_⟩
    rw [hgranted.used, hused, decide_eq_false (by omega)]
    rfl
  refine ⟨max i (r + n), ?_, by omega, fun j hj => hleft _ (by omega) (by omega) (by omega)⟩
  exact (hleft (max i (r + n)) (by omega) (by omega) (by omega)).1

/-- A request that meets a stretch long enough does not fail. -/
theorem HasRun.requestPages_ne_zero (h : fa.HasRun n) (hn : 0 < n) : (fa.requestPages n).2 ≠ 0 := by
  obtain ⟨i, hi, hhint, hfree⟩ := h.2
  obtain ⟨r, -, haddr, -, hgranted⟩ := requestPages_first hn hi hhint hfree
  rw [haddr]
  -- the grant starts at a free frame, and frame 0 is not one
  have hr : r ≠ 0 := by
    rintro rfl
    have hfree0 := (hgranted.free 0 le_rfl (by omega)).1
    rw [h.1] at hfree0
    cases hfree0
  exact Nat.mul_ne_zero hr (by decide)

end FrameAllocator

end Vespera.Memory
