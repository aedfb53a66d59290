import Mathlib.Logic.Function.Basic

/-! # Partial maps

A partial map is a function to `Option`. It is changed at one point by `Function.update`. -/

namespace Vespera.Lib

open Function

variable {α β : Type} [DecidableEq α] {m : α → Option β} {a k : α} {v : Option β} {b : β}

/-- What is in a map after a change is the new value, or was there before. -/
theorem update_eq_some (h : update m k v a = some b) :
    (a = k ∧ v = some b) ∨ (a ≠ k ∧ m a = some b) := by
  by_cases ha : a = k
  · subst ha
    rw [update_self] at h
    exact .inl ⟨rfl, h⟩
  · rw [update_of_ne ha] at h
    exact .inr ⟨ha, h⟩

end Vespera.Lib
