import Mathlib.Algebra.BigOperators.Group.Finset.Basic

/-! # Sums in which one term changes -/

namespace Vespera.Lib

/-- Two sums that differ in one term. -/
theorem sum_change {ι : Type} [DecidableEq ι] {s : Finset ι} {f g : ι → Nat} {i : ι} (hi : i ∈ s)
    (h : ∀ j ∈ s, j ≠ i → g j = f j) : ∑ j ∈ s, g j + f i = ∑ j ∈ s, f j + g i := by
  have hrest : ∑ j ∈ s.erase i, g j = ∑ j ∈ s.erase i, f j := by
    refine Finset.sum_congr rfl ?_
    intro j hj
    exact h j (Finset.mem_of_mem_erase hj) (Finset.ne_of_mem_erase hj)
  rw [← Finset.add_sum_erase s f hi, ← Finset.add_sum_erase s g hi, hrest]
  omega

end Vespera.Lib
