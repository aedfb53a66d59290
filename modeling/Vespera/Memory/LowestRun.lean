import Vespera.Memory.FrameCalls

/-! # The run that a request takes

`request_pages` looks for the lowest run of clear bits and skips ahead when it meets a set one;
`request_page` starts at the hint. Beside the bitmap a request moves the pages it takes from
`free_memory_` to `used_memory_`.

* `step_below`: whatever is called, no free frame is left below the hint;
* `requestPages_lowest_run`: so after every history a request takes the lowest run there is, and
  accounts for exactly its pages; without a run it changes nothing.
-/

namespace Vespera.Memory

open Lib FrameLedger

namespace FrameLedger

open FrameAllocator

/-- Any call, with any arguments. -/
theorem step_below (st : FrameLedger) (c : FrameCall) (h : st.fa.Below) :
    (st.step c).1.fa.Below := by
  have hlock : ∀ (addr n : Nat), (st.fa.lockPagesAt addr n).Below := fun addr n =>
    foldl_below (fun fa t hfa => lockPage_below hfa) h
  have hfree : ∀ (addr n : Nat), (st.fa.freePages addr n).Below := fun addr n =>
    foldl_below (fun fa t hfa => freePage_below hfa) h
  cases c with
  | requestPage => exact requestPage_below h
  | requestPages n => exact requestPages_below h
  | freePage addr => exact freePage_below h
  | freePages addr n => exact hfree addr n
  | lockPage addr => exact lockPage_below h
  | lockPages addr n => exact hlock addr n
  | reservePage addr => exact lockPage_below h
  | reservePages addr n => exact hlock addr n
  | unreservePage addr => exact freePage_below h
  | unreservePages addr n => exact hfree addr n

end FrameLedger

/-- The allocator with the two counters that a request changes. -/
structure CountedFrames where
  fa : FrameAllocator
  freeMemory : UInt64
  usedMemory : UInt64

namespace CountedFrames

open FrameAllocator

variable (c : CountedFrames)

/-- `lock_page_nolock`: the counters change if the bit was clear and could be set. -/
def lockPage (i : Nat) : CountedFrames :=
  if c.fa.used i then c
  else if i > c.fa.maxIndex then c
  else ⟨c.fa.set i true, c.freeMemory - 4096, c.usedMemory + 4096⟩

/-- The second loop of `request_pages`. -/
def lockPages (i n : Nat) : CountedFrames :=
  (List.range n).foldl (fun c j => c.lockPage (i + j)) c

def requestPage : CountedFrames × Nat :=
  let i := c.fa.scan (c.fa.maxIndex - c.fa.hint) c.fa.hint
  let c := { c with fa := { c.fa with hint := i } }
  if i < c.fa.maxIndex then (c.lockPage i, i * pageSize) else (c, 0)

def requestPages (n : Nat) : CountedFrames × Nat :=
  if n = 0 then (c, 0)
  else if n = 1 then c.requestPage
  else match c.fa.findRun n (c.fa.maxIndex + 1) 0 with
  | none => (c, 0)
  | some i => (c.lockPages i n, i * pageSize)

variable {c : CountedFrames} {i n : Nat}

theorem lockPage_fa : (c.lockPage i).fa = c.fa.lockPage i := by
  unfold lockPage FrameAllocator.lockPage FrameAllocator.set
  split_ifs <;> rfl

theorem lockPages_succ : c.lockPages i (n + 1) = (c.lockPages i n).lockPage (i + n) := by
  simp [lockPages, List.range_succ]

theorem lockPages_fa : (c.lockPages i n).fa = c.fa.lockPages i n := by
  induction n with
  | zero => rfl
  | succ n ih =>
    rw [lockPages_succ, lockPage_fa, ih, FrameAllocator.lockPages_succ]

/-- On the bitmap the requests are those of the allocator. -/
theorem requestPages_fa (c : CountedFrames) (n : Nat) :
    (c.requestPages n).1.fa = (c.fa.requestPages n).1 ∧
      (c.requestPages n).2 = (c.fa.requestPages n).2 := by
  unfold requestPages FrameAllocator.requestPages
  split
  · exact ⟨rfl, rfl⟩
  split
  · unfold requestPage FrameAllocator.requestPage
    dsimp only
    split
    · exact ⟨lockPage_fa, rfl⟩
    · exact ⟨rfl, rfl⟩
  · cases c.fa.findRun n (c.fa.maxIndex + 1) 0 with
    | none => exact ⟨rfl, rfl⟩
    | some i => exact ⟨lockPages_fa, rfl⟩

/-- The next `n` frames are clear. -/
def IsRun (fa : FrameAllocator) (n i : Nat) : Prop :=
  ∀ j, j < n → i + j < fa.maxIndex ∧ fa.used (i + j) = false

/-- `n` pages have been moved from the one counter to the other. -/
def Moved (c c' : CountedFrames) (n : Nat) : Prop :=
  c'.freeMemory = c.freeMemory - 4096 * UInt64.ofNat n ∧
    c'.usedMemory = c.usedMemory + 4096 * UInt64.ofNat n

theorem lockPages_moved (h : IsRun c.fa n i) : Moved c (c.lockPages i n) n := by
  induction n with
  | zero => exact ⟨by simp [lockPages], by simp [lockPages]⟩
  | succ n ih =>
    obtain ⟨hfree, hused⟩ := ih fun j hj => h j (Nat.lt_succ_of_lt hj)
    obtain ⟨hlt, hclear⟩ := h n (Nat.lt_succ_self n)
    -- the frames before it are locked, this one is not
    have hin : i + n ≤ c.fa.maxIndex + 1 := by omega
    obtain ⟨hbits, hmax⟩ := lockPages_used (i + n) (.inl hin)
    rw [← lockPages_fa] at hbits hmax
    rw [hclear, decide_eq_false (by omega)] at hbits
    have hof : UInt64.ofNat (n + 1) = UInt64.ofNat n + 1 := UInt64.ofNat_add n 1
    rw [lockPages_succ, lockPage, if_neg (by rw [hbits]; decide), if_neg (by omega)]
    constructor
    · rw [hfree, hof]
      grind
    · rw [hused, hof]
      grind

/-- A request that returns frames counts them, and one that returns nothing counts nothing. -/
theorem requestPages_moved (hzero : c.fa.used 0) (hn : 1 ≤ n) :
    ((c.requestPages n).2 ≠ 0 → Moved c (c.requestPages n).1 n) ∧
      ((c.requestPages n).2 = 0 → Moved c (c.requestPages n).1 0) := by
  have hnot : ∀ i, c.fa.used i = false → i * pageSize ≠ 0 := by
    rintro i hi hi0
    rw [(Nat.mul_eq_zero.mp hi0).resolve_right (by decide), hzero] at hi
    cases hi
  have hsame : ∀ c' : CountedFrames, c'.freeMemory = c.freeMemory → c'.usedMemory = c.usedMemory →
      Moved c c' 0 := fun c' hf hu => ⟨by simp [hf], by simp [hu]⟩
  unfold requestPages
  rw [if_neg (by omega)]
  split
  · next hone =>
    subst hone
    obtain ⟨-, -, hclear, -⟩ := scan_spec c.fa (c.fa.maxIndex - c.fa.hint) c.fa.hint
    unfold requestPage
    dsimp only
    split
    · next hlt =>
      have hfree := hclear (by omega)
      refine ⟨fun _ => ?_, fun h => absurd h (hnot _ hfree)⟩
      have hlock : ¬ ({ c.fa with hint := c.fa.scan (c.fa.maxIndex - c.fa.hint) c.fa.hint } :
          FrameAllocator).used (c.fa.scan (c.fa.maxIndex - c.fa.hint) c.fa.hint) := by
        show ¬ c.fa.used _ = true
        rw [hfree]
        decide
      rw [lockPage, if_neg hlock, if_neg (Nat.not_lt_of_lt hlt)]
      exact ⟨rfl, rfl⟩
    · exact ⟨fun h => absurd rfl h, fun _ => hsame _ rfl rfl⟩
  split
  · exact ⟨fun h => absurd rfl h, fun _ => hsame _ rfl rfl⟩
  next i hrun =>
  have hfree := findRun_some hrun
  refine ⟨fun _ => lockPages_moved fun j hj => ?_,
    fun h => absurd h (hnot i (hfree i (Nat.le_refl i) (by omega)).1)⟩
  exact (hfree (i + j) (by omega) (by omega)).symm

/-- After every history of calls and with frame 0 reserved, a request for `n` frames takes the
lowest run of `n` clear bits and moves `n` pages between the counters; if there is no such run, it
returns 0 and changes neither the bitmap nor the counters. -/
theorem requestPages_lowest_run (fa : FrameAllocator) (hhint : fa.hint = 0) (calls : List FrameCall)
    (hzero : (final step ⟨fa, []⟩ calls).fa.used 0 = true)
    (freeMemory usedMemory : UInt64) (hn : 1 ≤ n) :
    let c : CountedFrames := ⟨(final step ⟨fa, []⟩ calls).fa, freeMemory, usedMemory⟩
    (∀ i, IsRun c.fa n i → (∀ j, IsRun c.fa n j → i ≤ j) →
      (c.requestPages n).2 = i * pageSize ∧
      (∀ k, (c.requestPages n).1.fa.used k = (c.fa.used k || decide (i ≤ k ∧ k < i + n))) ∧
      Moved c (c.requestPages n).1 n) ∧
    ((∀ i, ¬ IsRun c.fa n i) → (c.requestPages n).2 = 0 ∧
      (∀ k, (c.requestPages n).1.fa.used k = c.fa.used k) ∧ Moved c (c.requestPages n).1 0) := by
  intro c
  have hbelow : c.fa.Below := by
    refine final_invariant step_below (s := ⟨fa, []⟩) (fun i hi => ?_) calls
    rw [hhint] at hi
    exact absurd hi (Nat.not_lt_zero i)
  have hwf : c.fa.WF := ⟨hzero, hbelow⟩
  obtain ⟨hfa, haddr⟩ := requestPages_fa c n
  obtain ⟨hmoved, hkept⟩ := requestPages_moved (c := c) hzero hn
  constructor
  · intro i hi hlow
    obtain ⟨hlt, hclear⟩ := hi 0 hn
    rw [Nat.add_zero] at hlt hclear
    have hle : c.fa.hint ≤ i := by
      by_contra hgt
      rw [hbelow i (Nat.lt_of_not_le hgt) hlt] at hclear
      cases hclear
    obtain ⟨r, hr, hat, -, hgranted⟩ := requestPages_first hn hlt hle hi
    have hri : r = i := by
      refine Nat.le_antisymm hr (hlow r fun j hj => ?_)
      exact (hgranted.free (r + j) (by omega) (by omega)).symm
    subst hri
    have hne : (c.requestPages n).2 ≠ 0 := by
      rw [haddr, hat]
      refine Nat.mul_ne_zero (fun hr0 => ?_) (by decide)
      rw [hr0, hzero] at hclear
      cases hclear
    exact ⟨haddr.trans hat, fun k => hfa ▸ hgranted.used k, hmoved hne⟩
  intro hnone
  have hfail : (c.fa.requestPages n).2 = 0 := by
    by_contra hne
    obtain ⟨i, -, hgranted⟩ := requestPages_ok hne
    exact hnone i fun j hj => (hgranted.free (i + j) (by omega) (by omega)).symm
  refine ⟨haddr.trans hfail, fun k => ?_, hkept (haddr.trans hfail)⟩
  rw [hfa]
  exact requestPages_failed hwf hfail

/-- Two frames after the first one was taken. -/
theorem requestPages_lowest_run_two :
    ((⟨(final step ⟨sixteenFrames, []⟩ [.requestPage]).fa, 8192, 0⟩ :
      CountedFrames).requestPages 2).2 = 2 * pageSize := by
  refine ((requestPages_lowest_run sixteenFrames rfl [.requestPage] (by decide +kernel)
    8192 0 (by decide : 1 ≤ 2)).1 2 ?_ fun j hj => ?_).1
  · unfold IsRun
    decide +kernel
  by_contra hlt
  have hclear := (hj 0 (by decide)).2
  have hj2 : j = 0 ∨ j = 1 := by omega
  rcases hj2 with rfl | rfl <;> revert hclear <;> decide +kernel

end CountedFrames

end Vespera.Memory
