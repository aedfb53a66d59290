import Mathlib.Data.List.Pairwise
import Mathlib.Data.List.Perm.Basic

/-! # Spans

Things that occupy a stretch of numbers `[lo a, hi a)`: areas of an address space, segments of a
heap, blocks of a file. `Ok bound as` says that the spans of a list are not empty, end at `bound`
or before, and do not overlap.

* `Ok.perm`: the order of the list does not matter;
* `ok_append`: two lists that do not meet;
* `Ok.find?_eq_some`: looking a number up finds the span that it lies in;
* `Ok.replace`: one span may be replaced by parts of itself, and the others likewise.
-/

namespace Vespera.Lib.Span

open List

universe u

variable {α : Type u} (lo hi : α → Nat)

/-- Two spans have no number in common. -/
def Apart (a b : α) : Prop := hi a ≤ lo b ∨ hi b ≤ lo a

/-- A span is part of another. -/
def Inside (a b : α) : Prop := lo b ≤ lo a ∧ hi a ≤ hi b

/-- The spans of a list are not empty, end before the bound and do not overlap. -/
structure Ok (bound : Nat) (as : List α) : Prop where
  proper : ∀ a ∈ as, lo a < hi a ∧ hi a ≤ bound
  apart : as.Pairwise (Apart lo hi)

instance (a b : α) : Decidable (Apart lo hi a b) := inferInstanceAs (Decidable (_ ∨ _))

variable {lo hi} {as : List α} {bound : Nat}

theorem Apart.symm {a b : α} (h : Apart lo hi a b) : Apart lo hi b a := Or.symm h

instance : Std.Symm (Apart lo hi) := ⟨fun _ _ h => h.symm⟩

theorem Apart.inside {a a' b b' : α} (h : Apart lo hi a' b') (ha : Inside lo hi a a')
    (hb : Inside lo hi b b') : Apart lo hi a b :=
  h.imp (fun h => Nat.le_trans ha.2 (Nat.le_trans h hb.1))
    (fun h => Nat.le_trans hb.2 (Nat.le_trans h ha.1))

theorem Inside.refl (a : α) : Inside lo hi a a := ⟨Nat.le_refl _, Nat.le_refl _⟩

theorem ok_nil : Ok lo hi bound ([] : List α) where
  proper _ h := nomatch h
  apart := .nil

theorem Ok.perm {bs : List α} (h : Ok lo hi bound as) (hperm : as.Perm bs) : Ok lo hi bound bs :=
  ⟨fun b hb => h.proper b (hperm.mem_iff.mpr hb), (hperm.pairwise_iff fun h => h.symm).mp h.apart⟩

theorem ok_append {bs : List α} :
    Ok lo hi bound (as ++ bs) ↔ Ok lo hi bound as ∧ Ok lo hi bound bs ∧
      ∀ a ∈ as, ∀ b ∈ bs, Apart lo hi a b := by
  constructor
  · intro h
    obtain ⟨has, hbs, hab⟩ := pairwise_append.mp h.apart
    exact ⟨⟨fun a ha => h.proper a (mem_append_left _ ha), has⟩,
      ⟨fun b hb => h.proper b (mem_append_right _ hb), hbs⟩, hab⟩
  rintro ⟨has, hbs, hab⟩
  refine ⟨fun c hc => ?_, pairwise_append.mpr ⟨has.apart, hbs.apart, hab⟩⟩
  rcases mem_append.mp hc with hc | hc
  · exact has.proper c hc
  · exact hbs.proper c hc

theorem ok_cons {a : α} :
    Ok lo hi bound (a :: as) ↔ (lo a < hi a ∧ hi a ≤ bound) ∧ Ok lo hi bound as ∧
      ∀ b ∈ as, Apart lo hi a b := by
  constructor
  · intro h
    obtain ⟨hab, has⟩ := pairwise_cons.mp h.apart
    exact ⟨h.proper a mem_cons_self, ⟨fun b hb => h.proper b (mem_cons_of_mem a hb), has⟩, hab⟩
  rintro ⟨ha, has, hab⟩
  refine ⟨fun c hc => ?_, pairwise_cons.mpr ⟨hab, has.apart⟩⟩
  rcases mem_cons.mp hc with rfl | hc
  · exact ha
  · exact has.proper c hc

/-- Two different spans of the list do not overlap. -/
theorem Ok.apart_of_ne (h : Ok lo hi bound as) {a b : α} (ha : a ∈ as)
    (hb : b ∈ as) (hne : a ≠ b) : Apart lo hi a b :=
  h.apart.forall ha hb hne

/-- A list for a bound is one for every higher bound. -/
theorem Ok.mono {bound' : Nat} (h : Ok lo hi bound as) (hle : bound ≤ bound') :
    Ok lo hi bound' as :=
  ⟨fun a ha => ⟨(h.proper a ha).1, Nat.le_trans (h.proper a ha).2 hle⟩, h.apart⟩

/-- The first span that a number lies in is the only one. -/
theorem Ok.find?_eq_some {n : Nat} (h : Ok lo hi bound as) {a : α} :
    as.find? (fun a => lo a ≤ n ∧ n < hi a) = some a ↔ a ∈ as ∧ lo a ≤ n ∧ n < hi a := by
  constructor
  · intro hfind
    exact ⟨mem_of_find?_eq_some hfind, by simpa using find?_some hfind⟩
  rintro ⟨ha, hlo, hhi⟩
  cases hfind : as.find? (fun a => lo a ≤ n ∧ n < hi a) with
  | none => simpa [hlo, hhi] using find?_eq_none.mp hfind a ha
  | some b =>
    have hb : lo b ≤ n ∧ n < hi b := by simpa using find?_some hfind
    by_contra hne
    rcases h.apart_of_ne ha (mem_of_find?_eq_some hfind) (fun he => hne (he ▸ rfl)) with h | h
    · exact absurd (Nat.lt_of_lt_of_le hhi h) (Nat.not_lt_of_le hb.1)
    · exact absurd (Nat.lt_of_lt_of_le hb.2 h) (Nat.not_lt_of_le hlo)

/-- Spans may be replaced by parts of themselves. -/
theorem Ok.replace {a : α} {ps bs : List α} (h : Ok lo hi bound (a :: as))
    (hps : Ok lo hi bound ps) (hpa : ∀ p ∈ ps, Inside lo hi p a) (hbs : Ok lo hi bound bs)
    (hba : ∀ b ∈ bs, ∃ a' ∈ as, Inside lo hi b a') : Ok lo hi bound (ps ++ bs) := by
  obtain ⟨-, -, hapart⟩ := ok_cons.mp h
  refine ok_append.mpr ⟨hps, hbs, fun p hp b hb => ?_⟩
  obtain ⟨a', ha', hin⟩ := hba b hb
  exact (hapart a' ha').inside (hpa p hp) hin

end Vespera.Lib.Span
