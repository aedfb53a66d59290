import Mathlib.Data.List.Basic

/-! # Segments laid end to end

A stretch of memory cut into segments that follow each other without a gap. Each segment says in its
header where the one before it and the one behind it start; `N a p q s` is what the header at `a`
says of segment `s`: "before me is `p`, behind me is `q`". A missing neighbour is 0.

* `places`: every segment with the address it starts at; two of them never overlap (`places_apart`);
* `Chain`: the headers of a stretch name their neighbours; it is cut between any two segments
  (`chain_append`) and depends on the headers at its own places only (`Chain.imp`);
* `Chain.relink` is the one edit that reaches beyond the segments it is about: the first segment
  behind them gets a new neighbour before it.
-/

namespace Vespera.Lib

universe u

variable {α : Type u} (len : α → Nat)

/-- The bytes a stretch takes. -/
def extent : List α → Nat
  | [] => 0
  | s :: l => len s + extent l

/-- Every segment of a stretch that starts at `a`, with its address. -/
def places : Nat → List α → List (Nat × α)
  | _, [] => []
  | a, s :: l => (a, s) :: places (a + len s) l

/-- The pointer to what starts at `a`, in a stretch that ends at `e`. -/
def link (e a : Nat) : Nat := if a = e then 0 else a

/-- The segments of `l` from `a` on, behind the segment at `p`, with headers that name their
neighbours; `p'` is the last of them and `a'` where they end. -/
def Chain (N : Nat → Nat → Nat → α → Prop) (e : Nat) : Nat → Nat → List α → Nat → Nat → Prop
  | p, a, [], p', a' => p' = p ∧ a' = a
  | p, a, s :: l, p', a' => N a p (link e (a + len s)) s ∧ Chain N e a (a + len s) l p' a'

variable {len}

theorem link_of_ne {e a : Nat} (h : a ≠ e) : link e a = a := if_neg h

@[simp] theorem link_self {e : Nat} : link e e = 0 := if_pos rfl

theorem extent_append {l r : List α} : extent len (l ++ r) = extent len l + extent len r := by
  induction l with
  | nil => simp [extent]
  | cons s l ih =>
    simp only [List.cons_append, extent, ih]
    omega

theorem places_append {a : Nat} {l r : List α} :
    places len a (l ++ r) = places len a l ++ places len (a + extent len l) r := by
  induction l generalizing a with
  | nil => simp [places, extent]
  | cons s l ih => simp only [List.cons_append, places, extent, ih, Nat.add_assoc]

theorem place_cut {a y : Nat} {s : α} {l : List α} (h : (y, s) ∈ places len a l) :
    ∃ l1 l2, l = l1 ++ s :: l2 ∧ y = a + extent len l1 := by
  induction l generalizing a with
  | nil => cases h
  | cons t l ih =>
    rcases List.mem_cons.mp h with heq | h
    · obtain ⟨rfl, rfl⟩ := Prod.mk.inj heq
      exact ⟨[], l, rfl, rfl⟩
    obtain ⟨l1, l2, rfl, rfl⟩ := ih h
    refine ⟨t :: l1, l2, rfl, ?_⟩
    simp only [extent]
    omega

theorem place_at (a : Nat) (l1 : List α) (s : α) (l2 : List α) :
    (a + extent len l1, s) ∈ places len a (l1 ++ s :: l2) := by
  rw [places_append]
  exact List.mem_append_right _ List.mem_cons_self

theorem place_bounds {a y : Nat} {s : α} {l : List α} (h : (y, s) ∈ places len a l) :
    a ≤ y ∧ y + len s ≤ a + extent len l := by
  obtain ⟨l1, l2, rfl, rfl⟩ := place_cut h
  rw [extent_append, extent]
  omega

/-- Two segments of a stretch are the same one, or one ends before the other starts. -/
theorem places_apart {a y z : Nat} {s t : α} {l : List α} (hs : (y, s) ∈ places len a l)
    (ht : (z, t) ∈ places len a l) : (y, s) = (z, t) ∨ y + len s ≤ z ∨ z + len t ≤ y := by
  induction l generalizing a with
  | nil => cases hs
  | cons r l ih =>
    rcases List.mem_cons.mp hs with hs' | hs' <;> rcases List.mem_cons.mp ht with ht' | ht'
    · exact Or.inl (hs'.trans ht'.symm)
    · obtain ⟨rfl, rfl⟩ := Prod.mk.inj hs'
      exact Or.inr (Or.inl (place_bounds ht').1)
    · obtain ⟨rfl, rfl⟩ := Prod.mk.inj ht'
      exact Or.inr (Or.inr (place_bounds hs').1)
    · exact ih hs' ht'

section Chain

variable {N N' : Nat → Nat → Nat → α → Prop} {e e' p a p' a' : Nat} {l r : List α}

theorem chain_append : Chain len N e p a (l ++ r) p' a' ↔
      ∃ q, Chain len N e p a l q (a + extent len l) ∧
        Chain len N e q (a + extent len l) r p' a' := by
  induction l generalizing p a with
  | nil => simp [Chain, extent]
  | cons s l ih =>
    simp only [List.cons_append, Chain, ih, extent, Nat.add_assoc]
    constructor
    · rintro ⟨h, q, h1, h2⟩
      exact ⟨q, ⟨h, h1⟩, h2⟩
    · rintro ⟨q, ⟨h, h1⟩, h2⟩
      exact ⟨h, q, h1, h2⟩

section

variable (h : Chain len N e p a l p' a')

include h

theorem Chain.end_eq : a' = a + extent len l := by
  induction l generalizing p a with
  | nil => exact h.2
  | cons s l ih =>
    have := ih h.2
    simp only [extent]
    omega

/-- A chain depends on the headers at its places. The end may move as long as no segment but the
last one of the whole stretch reaches it. -/
theorem Chain.imp (himp : ∀ y s p, (y, s) ∈ places len a l →
      N y p (link e (y + len s)) s → N' y p (link e' (y + len s)) s) :
    Chain len N' e' p a l p' a' := by
  induction l generalizing p a with
  | nil => exact h
  | cons s l ih =>
    refine ⟨himp a s p List.mem_cons_self h.1, ih h.2 ?_⟩
    intro y t q hy
    exact himp y t q (List.mem_cons_of_mem _ hy)

/-- The first segment gets the neighbour `q` before it. No segment is shorter than `k`. -/
theorem Chain.relink {q k : Nat} (hk : ∀ s, k ≤ len s)
    (hfirst : ∀ s, a + len s ≤ a' → N a p (link e (a + len s)) s → N' a q (link e (a + len s)) s)
    (hrest : ∀ y s p, a + k ≤ y → N y p (link e (y + len s)) s → N' y p (link e (y + len s)) s) :
    ∃ p'', Chain len N' e q a l p'' a' := by
  cases l with
  | nil => exact ⟨q, rfl, h.2⟩
  | cons s l =>
    have hend := h.2.end_eq
    refine ⟨p', hfirst s (by omega) h.1, h.2.imp ?_⟩
    intro y t p hy hN
    have hge := (place_bounds hy).1
    have := hk s
    exact hrest y t p (by omega) hN

end

end Chain

end Vespera.Lib
