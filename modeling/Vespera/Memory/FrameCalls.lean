import Vespera.Lib.Run
import Vespera.Memory.FrameAllocator

/-! # The frame allocator over whole histories

The ten entry points of `PageFrameAllocator` as one transition function, with a ledger beside it:
`out` lists the frames that requests have returned and that were not given back since. Both
`free_page` and `unreserve_page` give a frame back: they clear the same bit, and the next request
may return the frame.

`Good` is what every call keeps, as long as the calls name frames of the bitmap and frame 0 stays
reserved:

* no frame below the hint is free, so the scan of `request_page`, which starts there, misses none;
* the frames of the ledger are all marked used, so a request returns none of them again.
-/

namespace Vespera.Memory

open Lib

namespace FrameAllocator

/-! ## Ranges given by an address -/

variable (fa : FrameAllocator)

/-- `lock_page` -/
def lockPageAt (addr : Nat) : FrameAllocator := fa.lockPage (addr / pageSize)

/-- `lock_pages` -/
def lockPagesAt (addr n : Nat) : FrameAllocator :=
  (List.range n).foldl (fun fa t => fa.lockPageAt (addr + t * pageSize)) fa

/-- `reserve_page_nolock`: on the bitmap it is `lock_page_nolock`, the two differ in the counter
they add to. -/
def reservePage (addr : Nat) : FrameAllocator := fa.lockPage (addr / pageSize)

def reservePages (addr n : Nat) : FrameAllocator :=
  (List.range n).foldl (fun fa t => fa.reservePage (addr + t * pageSize)) fa

/-- `unreserve_page_nolock`: on the bitmap and the hint it is `free_page_nolock`. -/
def unreservePage (addr : Nat) : FrameAllocator := fa.freePage addr

def unreservePages (addr n : Nat) : FrameAllocator :=
  (List.range n).foldl (fun fa t => fa.unreservePage (addr + t * pageSize)) fa

variable {addr : Nat} {fa : FrameAllocator}

theorem add_mul_pageSize_div {t : Nat} : (addr + t * pageSize) / pageSize = addr / pageSize + t :=
  Nat.add_mul_div_right addr t (by decide)

theorem lockPagesAt_eq {n : Nat} : fa.lockPagesAt addr n = fa.lockPages (addr / pageSize) n := by
  simp only [lockPagesAt, lockPages, lockPageAt, add_mul_pageSize_div]

theorem reservePages_eq {n : Nat} : fa.reservePages addr n = fa.lockPages (addr / pageSize) n := by
  simp only [reservePages, lockPages, reservePage, add_mul_pageSize_div]

theorem unreservePages_eq {n : Nat} : fa.unreservePages addr n = fa.freePages addr n := rfl

theorem freePages_one : fa.freePages addr 1 = fa.freePage addr := by
  simp [freePages]

/-- Only the index counts. -/
theorem freePages_frame {n : Nat} :
    fa.freePages addr n = fa.freePages (addr / pageSize * pageSize) n := by
  have hindex : ∀ t, (addr / pageSize * pageSize + t * pageSize) / pageSize =
      (addr + t * pageSize) / pageSize := by
    intro t
    rw [add_mul_pageSize_div, add_mul_pageSize_div, Nat.mul_div_cancel _ (by decide)]
  simp only [freePages, freePage, hindex]

end FrameAllocator

/-! ## Calls -/

/-- A call to the allocator. -/
inductive FrameCall where
  | requestPage
  | requestPages (n : Nat)
  | freePage (addr : Nat)
  | freePages (addr n : Nat)
  | lockPage (addr : Nat)
  | lockPages (addr n : Nat)
  | reservePage (addr : Nat)
  | reservePages (addr n : Nat)
  | unreservePage (addr : Nat)
  | unreservePages (addr n : Nat)
deriving DecidableEq, Repr

/-- The allocator, and the frames that were returned and not given back. -/
structure FrameLedger where
  fa : FrameAllocator
  out : List Nat

namespace FrameLedger

/-- A request came back with `n` frames from `addr` on, or with nothing. -/
def grant (st : FrameLedger) (r : FrameAllocator × Nat) (n : Nat) : FrameLedger × Nat :=
  (⟨r.1, if r.2 = 0 then st.out else (List.range n).map (r.2 / pageSize + ·) ++ st.out⟩, r.2)

/-- `n` frames from `addr` on were given back. -/
def giveBack (st : FrameLedger) (fa : FrameAllocator) (addr n : Nat) : FrameLedger × Nat :=
  (⟨fa, st.out.filter fun k => !decide (addr / pageSize ≤ k ∧ k < addr / pageSize + n)⟩, 0)

/-- One call, with the address it returns. -/
def step (st : FrameLedger) : FrameCall → FrameLedger × Nat
  | .requestPage => st.grant st.fa.requestPage 1
  | .requestPages n => st.grant (st.fa.requestPages n) n
  | .freePage addr => st.giveBack (st.fa.freePage addr) addr 1
  | .freePages addr n => st.giveBack (st.fa.freePages addr n) addr n
  | .lockPage addr => (⟨st.fa.lockPageAt addr, st.out⟩, 0)
  | .lockPages addr n => (⟨st.fa.lockPagesAt addr n, st.out⟩, 0)
  | .reservePage addr => (⟨st.fa.reservePage addr, st.out⟩, 0)
  | .reservePages addr n => (⟨st.fa.reservePages addr n, st.out⟩, 0)
  | .unreservePage addr => st.giveBack (st.fa.unreservePage addr) addr 1
  | .unreservePages addr n => st.giveBack (st.fa.unreservePages addr n) addr n

end FrameLedger

/-- The call names frames of the bitmap. -/
def FrameCall.InBitmap (maxIndex : Nat) : FrameCall → Prop
  | .requestPage => True
  | .requestPages _ => True
  | .freePage addr => addr / pageSize < maxIndex
  | .freePages addr n => addr / pageSize + n ≤ maxIndex
  | .lockPage addr => addr / pageSize < maxIndex
  | .lockPages addr n => addr / pageSize + n ≤ maxIndex
  | .reservePage addr => addr / pageSize < maxIndex
  | .reservePages addr n => addr / pageSize + n ≤ maxIndex
  | .unreservePage addr => addr / pageSize < maxIndex
  | .unreservePages addr n => addr / pageSize + n ≤ maxIndex

/-- The call leaves frame 0 reserved. -/
def FrameCall.SparesZero : FrameCall → Prop
  | .freePage addr => 0 < addr / pageSize
  | .freePages addr n => 0 < n → 0 < addr / pageSize
  | .unreservePage addr => 0 < addr / pageSize
  | .unreservePages addr n => 0 < n → 0 < addr / pageSize
  | _ => True

instance (maxIndex : Nat) : DecidablePred (FrameCall.InBitmap maxIndex)
  | .requestPage | .requestPages _ => inferInstanceAs (Decidable True)
  | .freePage _ | .lockPage _ | .reservePage _ | .unreservePage _ =>
    inferInstanceAs (Decidable (_ < _))
  | .freePages .. | .lockPages .. | .reservePages .. | .unreservePages .. =>
    inferInstanceAs (Decidable (_ ≤ _))

instance : DecidablePred FrameCall.SparesZero
  | .freePage _ | .unreservePage _ => inferInstanceAs (Decidable (_ < _))
  | .freePages .. | .unreservePages .. => inferInstanceAs (Decidable (_ → _))
  | .requestPage | .requestPages _ | .lockPage _ | .lockPages .. | .reservePage _
  | .reservePages .. => inferInstanceAs (Decidable True)

namespace FrameLedger

open FrameAllocator

/-- The calls the allocator is made for. -/
def Fair (st : FrameLedger) (c : FrameCall) : Prop := c.InBitmap st.fa.maxIndex ∧ c.SparesZero

instance (st : FrameLedger) (c : FrameCall) : Decidable (st.Fair c) :=
  inferInstanceAs (Decidable (_ ∧ _))

/-! ## What every call keeps -/

/-- The hint misses no free frame, and the frames of the ledger are marked. -/
structure Good (st : FrameLedger) : Prop where
  wf : st.fa.WF
  hint_le : st.fa.hint ≤ st.fa.maxIndex
  marked : ∀ k ∈ st.out, st.fa.used k = true
  nodup : st.out.Nodup

variable {fa : FrameAllocator}

theorem requestPage_hint_le (h : fa.hint ≤ fa.maxIndex) : fa.requestPage.1.hint ≤ fa.maxIndex := by
  obtain ⟨-, hle, -, -⟩ := scan_spec fa (fa.maxIndex - fa.hint) fa.hint
  have hscan : fa.scan (fa.maxIndex - fa.hint) fa.hint ≤ fa.maxIndex := by omega
  unfold requestPage
  dsimp only
  split
  · rw [lockPage_hint]
    exact hscan
  · exact hscan

theorem requestPages_hint_le (h : fa.hint ≤ fa.maxIndex) {n : Nat} :
    (fa.requestPages n).1.hint ≤ fa.maxIndex := by
  unfold requestPages
  split
  · exact h
  split
  · exact requestPage_hint_le h
  split
  · exact h
  · rw [lockPages_hint]
    exact h

theorem freePages_hint_le (fa : FrameAllocator) (addr n : Nat) :
    (fa.freePages addr n).hint ≤ fa.hint := by
  induction n with
  | zero => exact Nat.le_refl _
  | succ n ih =>
    rw [freePages_succ]
    refine Nat.le_trans ?_ ih
    unfold freePage
    dsimp only
    split_ifs with hfree hgt
    · exact Nat.le_refl _
    · rw [set_hint] at hgt
      exact Nat.le_of_lt hgt
    · rw [set_hint]

/-- A request keeps the ledger right. -/
theorem Good.grant {st : FrameLedger} (h : st.Good) {n : Nat} :
    (st.grant (st.fa.requestPages n) n).1.Good := by
  refine ⟨requestPages_wf h.wf n, ?_, ?_, ?_⟩
  · show (st.fa.requestPages n).1.hint ≤ (st.fa.requestPages n).1.maxIndex
    rw [requestPages_maxIndex]
    exact requestPages_hint_le h.hint_le
  · intro k hk
    dsimp only [FrameLedger.grant] at hk ⊢
    split at hk
    · exact requestPages_mono (h.marked k hk)
    next hne =>
    obtain ⟨i, hi, hgranted⟩ := requestPages_ok hne
    rcases List.mem_append.mp hk with hk | hk
    · obtain ⟨j, hj, rfl⟩ := List.mem_map.mp hk
      rw [hi, Nat.mul_div_cancel _ (by decide), hgranted.used]
      have hj : j < n := List.mem_range.mp hj
      simp [hj]
    · exact requestPages_mono (h.marked k hk)
  dsimp only [FrameLedger.grant]
  split
  · exact h.nodup
  next hne =>
  obtain ⟨i, hi, hgranted⟩ := requestPages_ok hne
  rw [hi, Nat.mul_div_cancel _ (by decide)]
  refine List.nodup_append.mpr ⟨?_, h.nodup, ?_⟩
  · refine List.nodup_range.map ?_
    intro a b hab
    simpa using hab
  -- what is handed out was free, and what is out is not
  intro a ha b hb heq
  subst heq
  obtain ⟨j, hj, rfl⟩ := List.mem_map.mp ha
  have hj : j < n := List.mem_range.mp hj
  obtain ⟨hfree, -⟩ := hgranted.free (i + j) (by omega) (by omega)
  rw [h.marked _ hb] at hfree
  cases hfree

/-- Giving frames back keeps the ledger right. -/
theorem Good.giveBack {st : FrameLedger} (h : st.Good) {addr n : Nat}
    (hzero : 0 < n → 0 < addr / pageSize) :
    (st.giveBack (st.fa.freePages addr n) addr n).1.Good := by
  refine ⟨?_, ?_, ?_, ?_⟩
  · rcases Nat.eq_zero_or_pos n with hn | hn
    · subst hn
      exact h.wf
    refine freePages_wf h.wf ?_
    by_contra hlt
    have hpos := hzero hn
    rw [Nat.div_eq_of_lt (by omega)] at hpos
    omega
  · show (st.fa.freePages addr n).hint ≤ (st.fa.freePages addr n).maxIndex
    rw [freePages_maxIndex]
    exact Nat.le_trans (freePages_hint_le st.fa addr n) h.hint_le
  · intro k hk
    obtain ⟨hk, hout⟩ := List.mem_filter.mp hk
    show (st.fa.freePages addr n).used k = true
    rw [freePages_frame, freePages_used, h.marked k hk]
    simpa using hout
  · exact h.nodup.filter _

/-- Marking frames keeps the ledger right. -/
theorem Good.lock {st : FrameLedger} (h : st.Good) {i n : Nat} (hin : i + n ≤ st.fa.maxIndex) :
    Good ⟨st.fa.lockPages i n, st.out⟩ := by
  have hused : ∀ k, st.fa.used k → (st.fa.lockPages i n).used k := by
    intro k hk
    rw [(lockPages_used k (by omega)).1, hk]
    rfl
  have hmax : (st.fa.lockPages i n).maxIndex = st.fa.maxIndex := (lockPages_used 0 (by omega)).2
  refine ⟨⟨hused 0 h.wf.zero_used, ?_⟩, ?_, fun k hk => hused k (h.marked k hk), h.nodup⟩
  · intro k hk hlt
    rw [lockPages_hint] at hk
    rw [hmax] at hlt
    exact hused k (h.wf.hint k hk hlt)
  · rw [lockPages_hint, hmax]
    exact h.hint_le

/-- One call. -/
theorem step_good (st : FrameLedger) (c : FrameCall) (h : st.Good) (hc : st.Fair c) :
    (st.step c).1.Good := by
  obtain ⟨hin, hzero⟩ := hc
  cases c with
  | requestPage => exact h.grant (n := 1)
  | requestPages n => exact h.grant
  | freePage addr =>
    rw [step, ← freePages_one]
    exact h.giveBack fun _ => hzero
  | freePages addr n => exact h.giveBack hzero
  | lockPage addr => exact h.lock (n := 1) hin
  | lockPages addr n =>
    rw [step, lockPagesAt_eq]
    exact h.lock hin
  | reservePage addr => exact h.lock (n := 1) hin
  | reservePages addr n =>
    rw [step, reservePages_eq]
    exact h.lock hin
  | unreservePage addr =>
    rw [step, unreservePage, ← freePages_one]
    exact h.giveBack fun _ => hzero
  | unreservePages addr n => exact h.giveBack hzero

/-- All calls of a run. -/
theorem final_good (hzero : fa.used 0) (hhint : fa.hint = 0)
    {calls : List FrameCall} (hcalls : Along step Fair ⟨fa, []⟩ calls) :
    (final step ⟨fa, []⟩ calls).Good := by
  have hstart : Good ⟨fa, []⟩ := by
    refine ⟨⟨hzero, ?_⟩, ?_, ?_, List.nodup_nil⟩
    · intro i hi
      dsimp only at hi
      omega
    · dsimp only
      omega
    · intro k hk
      cases hk
  exact final_invariant_along step_good hstart hcalls

/-! ## Requests -/

/-- What a request does to the bitmap: it returns frames that were clear and are set afterwards,
and touches no other bit; or it returns 0 and touches none. -/
def Exact (fa : FrameAllocator) (r : FrameAllocator × Nat) (n : Nat) : Prop :=
  (r.2 ≠ 0 → r.2 % pageSize = 0 ∧ ∀ j, j < n →
    r.2 / pageSize + j < fa.maxIndex ∧ fa.used (r.2 / pageSize + j) = false ∧
      r.1.used (r.2 / pageSize + j) = true) ∧
  ∀ k, (r.2 = 0 ∨ k < r.2 / pageSize ∨ r.2 / pageSize + n ≤ k) → r.1.used k = fa.used k

theorem requestPages_exact (h : fa.WF) (n : Nat) : Exact fa (fa.requestPages n) n := by
  by_cases ha : (fa.requestPages n).2 = 0
  · refine ⟨fun hne => absurd ha hne, fun k _ => requestPages_failed h ha⟩
  obtain ⟨i, hi, hgranted⟩ := requestPages_ok ha
  have hindex : (fa.requestPages n).2 / pageSize = i := by
    rw [hi, Nat.mul_div_cancel _ (by decide)]
  rw [Exact, hindex]
  refine ⟨fun _ => ⟨?_, ?_⟩, ?_⟩
  · rw [hi, Nat.mul_mod_left]
  · intro j hj
    obtain ⟨hfree, hlt⟩ := hgranted.free (i + j) (by omega) (by omega)
    refine ⟨hlt, hfree, ?_⟩
    rw [hgranted.used]
    simp [hj]
  · rintro k (hzero | hk)
    · exact absurd hzero ha
    · rw [hgranted.used, decide_eq_false (by omega), Bool.or_false]

/-- `request_page` fails in a full bitmap only. -/
theorem requestPage_zero (h : fa.WF) (hzero : fa.requestPage.2 = 0) {k : Nat}
    (hk : k < fa.maxIndex) : fa.used k := by
  by_contra hfree
  rw [Bool.not_eq_true] at hfree
  have hcard : 0 < fa.freeFrames.card := by
    refine Finset.card_pos.mpr ⟨k, ?_⟩
    simp [freeFrames, hk, hfree]
  exact requestPage_succeeds h hcard hzero

/-- After every history of calls that name frames of the bitmap and leave frame 0 reserved, the
hint has no free frame below it, the frames that were returned and not given back are pairwise
distinct, both kinds of request are exact, and `request_page` fails only when every bit is set. -/
theorem frames_never_shared_nor_missed (fa : FrameAllocator) (hzero : fa.used 0 = true)
    (hhint : fa.hint = 0) (calls : List FrameCall) (hcalls : Along step Fair ⟨fa, []⟩ calls) :
    let st := final step ⟨fa, []⟩ calls
    (∀ k, k < st.fa.hint → st.fa.used k = true) ∧ st.out.Nodup ∧
      Exact st.fa st.fa.requestPage 1 ∧ (∀ n, Exact st.fa (st.fa.requestPages n) n) ∧
      (st.fa.requestPage.2 = 0 → ∀ k, k < st.fa.maxIndex → st.fa.used k = true) := by
  intro st
  have hgood : st.Good := final_good hzero hhint hcalls
  refine ⟨?_, hgood.nodup, requestPages_exact hgood.wf 1, requestPages_exact hgood.wf, ?_⟩
  · intro k hk
    exact hgood.wf.hint k hk (Nat.lt_of_lt_of_le hk hgood.hint_le)
  · intro hfail k hk
    exact requestPage_zero hgood.wf hfail hk

/-- Sixteen frames, the first one reserved. -/
def sixteenFrames : FrameAllocator := ⟨fun i => decide (i = 0), 16, 0⟩

/-- A history with every kind of call. -/
def mixedCalls : List FrameCall :=
  [.lockPages 8192 2, .requestPage, .requestPages 3, .freePage 4096, .reservePage 4096,
    .unreservePages 8192 2, .requestPage]

theorem frames_never_shared_nor_missed_mixed :
    Along step Fair ⟨sixteenFrames, []⟩ mixedCalls ∧
      (final step ⟨sixteenFrames, []⟩ mixedCalls).out.Nodup :=
  have hcalls : Along step Fair ⟨sixteenFrames, []⟩ mixedCalls := by decide +kernel
  ⟨hcalls, (frames_never_shared_nor_missed sixteenFrames rfl rfl mixedCalls hcalls).2.1⟩

/-- `unreserve_page` gives a frame back as `free_page` does: a frame that was requested and then
unreserved is returned by the next request, although nobody has freed it. -/
theorem unreserved_frame_returned_again :
    let calls := [FrameCall.requestPage, .unreservePage 4096, .requestPage]
    Along step Fair ⟨sixteenFrames, []⟩ calls ∧
      answers step ⟨sixteenFrames, []⟩ calls = [4096, 0, 4096] := by
  decide +kernel

end FrameLedger

end Vespera.Memory
