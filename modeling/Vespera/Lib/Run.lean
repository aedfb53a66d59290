import Mathlib.Data.List.Basic

/-! # Runs of a transition function

A component is a state type, a type of actions and a step function that takes
a state and an action to the next state and an answer. Everything the
development says about "every sequence of calls" is a statement about
`final` and `answers` below:

* `final_invariant`: an invariant kept by every step holds after every run;
* `final_invariant_along`: the same for runs whose steps all meet a condition
  (`Along`), the condition being read in the state the step starts from;
* `answers_forall_along`: under the same condition, every answer has a property;
* `answers_eq_of_rel`: two runs that start in related states and take the same
  actions give the same answers, when the relation is kept by every step and
  related states answer alike.
-/

namespace Vespera.Lib

universe u v w

variable {σ : Type u} {α : Type v} {β : Type w}

/-- The state after a list of actions. -/
def final (step : σ → α → σ × β) : σ → List α → σ
  | s, [] => s
  | s, a :: as => final step (step s a).1 as

/-- The answers given to a list of actions, in order. -/
def answers (step : σ → α → σ × β) : σ → List α → List β
  | _, [] => []
  | s, a :: as => (step s a).2 :: answers step (step s a).1 as

/-- Every action of the run meets `cond` in the state it is taken from. -/
def Along (step : σ → α → σ × β) (cond : σ → α → Prop) : σ → List α → Prop
  | _, [] => True
  | s, a :: as => cond s a ∧ Along step cond (step s a).1 as

@[simp] theorem final_nil {step : σ → α → σ × β} {s : σ} : final step s [] = s := rfl

@[simp] theorem final_cons {step : σ → α → σ × β} {s : σ} {a : α} {as : List α} :
    final step s (a :: as) = final step (step s a).1 as := rfl

theorem final_append (step : σ → α → σ × β) (s : σ) (as bs : List α) :
    final step s (as ++ bs) = final step (final step s as) bs := by
  induction as generalizing s with
  | nil => rfl
  | cons a as ih => simpa using ih (step s a).1

theorem answers_take {step : σ → α → σ × β} {s : σ} {as : List α} {n : Nat} :
    answers step s (as.take n) = (answers step s as).take n := by
  induction as generalizing s n with
  | nil => simp [answers]
  | cons a as ih =>
    cases n with
    | zero => simp [answers]
    | succ n => simp [answers, ih]

theorem along_append (step : σ → α → σ × β) (cond : σ → α → Prop) (s : σ) (as bs : List α) :
    Along step cond s (as ++ bs) ↔ Along step cond s as ∧ Along step cond (final step s as) bs := by
  induction as generalizing s with
  | nil => simp [Along]
  | cons a as ih =>
    simp only [List.cons_append, Along, final_cons, ih (step s a).1, and_assoc]

variable {step : σ → α → σ × β} {cond cond' : σ → α → Prop}

theorem Along.mono {s : σ} {as : List α}
    (h : Along step cond s as) (himp : ∀ s a, cond s a → cond' s a) : Along step cond' s as := by
  induction as generalizing s with
  | nil => trivial
  | cons a as ih => exact ⟨himp s a h.1, ih h.2⟩

instance decidableAlong (step : σ → α → σ × β) (cond : σ → α → Prop)
    [∀ s a, Decidable (cond s a)] : ∀ s as, Decidable (Along step cond s as)
  | _, [] => inferInstanceAs (Decidable True)
  | s, a :: as =>
    have := decidableAlong step cond (step s a).1 as
    inferInstanceAs (Decidable (_ ∧ _))

/-- Invariant induction for runs whose steps all meet `cond`. -/
theorem final_invariant_along {inv : σ → Prop} (hstep : ∀ s a, inv s → cond s a → inv (step s a).1)
    {s : σ} (hs : inv s) {as : List α} (has : Along step cond s as) : inv (final step s as) := by
  induction as generalizing s with
  | nil => exact hs
  | cons a as ih => exact ih (hstep s a hs has.1) has.2

/-- Invariant induction for arbitrary runs. -/
theorem final_invariant {inv : σ → Prop}
    (hstep : ∀ s a, inv s → inv (step s a).1) {s : σ} (hs : inv s) (as : List α) :
    inv (final step s as) := by
  induction as generalizing s with
  | nil => exact hs
  | cons a as ih => exact ih (hstep s a hs)

/-- Every answer has a property, along runs whose steps all meet `cond`. -/
theorem answers_forall_along {inv : σ → Prop}
    {good : β → Prop} (hstep : ∀ s a, inv s → cond s a → inv (step s a).1 ∧ good (step s a).2)
    {s : σ} (hs : inv s) {as : List α} (has : Along step cond s as) :
    ∀ b ∈ answers step s as, good b := by
  induction as generalizing s with
  | nil =>
    intro b hb
    cases hb
  | cons a as ih =>
    obtain ⟨hinv, hgood⟩ := hstep s a hs has.1
    intro b hb
    rcases List.mem_cons.mp hb with rfl | hb
    · exact hgood
    · exact ih hinv has.2 b hb

/-- A relation kept by equal actions makes two runs answer alike. -/
theorem answers_eq_of_rel {rel : σ → σ → Prop} (hstep : ∀ s t a, rel s t → cond s a →
      (step s a).2 = (step t a).2 ∧ rel (step s a).1 (step t a).1)
    {s t : σ} (hst : rel s t) {as : List α} (has : Along step cond s as) :
    answers step s as = answers step t as ∧ rel (final step s as) (final step t as) := by
  induction as generalizing s t with
  | nil => exact ⟨rfl, hst⟩
  | cons a as ih =>
    obtain ⟨hout, hrel⟩ := hstep s t a hst has.1
    obtain ⟨htail, hfinal⟩ := ih hrel has.2
    exact ⟨by simp only [answers, hout, htail], hfinal⟩

end Vespera.Lib
