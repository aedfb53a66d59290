import Mathlib.Data.List.Infix
import Mathlib.Data.List.Range

/-! # Bounded caches of a tree

A cache of (part of) a tree, bounded in size, with least-recently-used eviction.
Every entry is named by its path from the root; dropping an entry drops all that is
below it. The entries are kept in the order of their last use, oldest first.

A client walks down the tree, touching or adding one entry after the other. `Chain`
says that the entries on the way are the most recently used ones, so that
`putEvicting_spec` can promise that making room never takes them away.
-/

namespace Vespera.Lib

open List

/-- The entries with their paths, least recently used first. -/
structure PathCache (κ ν : Type) where
  entries : List (List κ × ν)

namespace PathCache

variable {κ ν : Type} {c : PathCache κ ν} {q : List κ}

/-- The paths of all entries. -/
def keys (c : PathCache κ ν) : List (List κ) := c.entries.map Prod.fst

/-- The paths are distinct, none is the root, and with an entry everything above it is
there too. -/
structure Ok (c : PathCache κ ν) : Prop where
  nodup : c.keys.Nodup
  root : [] ∉ c.keys
  closed : ∀ k ∈ c.keys, ∀ j, j ≠ [] → j <+: k → j ∈ c.keys

/-! ## The way to an entry -/

/-- The non-empty prefixes of a path, shortest first. -/
def prefixes (q : List κ) : List (List κ) := (List.range q.length).map fun i => q.take (i + 1)

theorem prefixes_concat {a : κ} : prefixes (q ++ [a]) = prefixes q ++ [q ++ [a]] := by
  unfold prefixes
  rw [length_append, length_singleton, range_succ, map_append]
  congr 1
  · refine map_congr_left ?_
    intro i hi
    rw [mem_range] at hi
    exact take_append_of_le_length (by omega)
  · rw [map_singleton, take_of_length_le (by simp)]

theorem mem_prefixes {k : List κ} : k ∈ prefixes q ↔ k ≠ [] ∧ k <+: q := by
  unfold prefixes
  simp only [mem_map, mem_range]
  constructor
  · rintro ⟨i, hi, rfl⟩
    refine ⟨?_, take_prefix _ _⟩
    intro hnil
    have := congrArg List.length hnil
    rw [length_take, length_nil] at this
    omega
  rintro ⟨hne, hpre⟩
  have hpos : 0 < k.length := length_pos_iff.mpr hne
  refine ⟨k.length - 1, by have := hpre.length_le; omega, ?_⟩
  rw [Nat.sub_add_cancel hpos]
  exact (prefix_iff_eq_take.mp hpre).symm

/-- The entries on the way to `q` are the most recently used ones. -/
def Chain (c : PathCache κ ν) (q : List κ) : Prop :=
  ∃ pre suf, c.entries = pre ++ suf ∧ suf.map Prod.fst = prefixes q

theorem chain_nil (c : PathCache κ ν) : c.Chain [] := ⟨c.entries, [], by simp, rfl⟩

theorem Chain.mem (h : c.Chain q) : q = [] ∨ q ∈ c.keys := by
  obtain ⟨pre, suf, hc, hsuf⟩ := h
  by_cases hq : q = []
  · exact Or.inl hq
  have hmem : q ∈ prefixes q := mem_prefixes.mpr ⟨hq, prefix_refl q⟩
  rw [← hsuf] at hmem
  refine Or.inr ?_
  unfold keys
  rw [hc, map_append]
  exact mem_append_right _ hmem

/-- The oldest entry is not on the way, if the cache holds more than the way. -/
theorem Chain.oldest (h : c.Chain q) (hok : c.Ok) {e : List κ × ν}
    (he : c.entries.head? = some e) (hlen : q.length < c.entries.length) : ¬ e.1 <+: q := by
  obtain ⟨pre, suf, hc, hsuf⟩ := h
  have hsuflen : suf.length = q.length := by
    have := congrArg List.length hsuf
    simpa [prefixes] using this
  rcases pre with _ | ⟨e', pre⟩
  · rw [hc, nil_append] at hlen
    omega
  rw [hc, cons_append, head?_cons] at he
  obtain rfl := Option.some.inj he
  have hnodup := hok.nodup
  unfold keys at hnodup
  rw [hc, cons_append, map_cons, nodup_cons, map_append, hsuf] at hnodup
  intro hpre
  refine hnodup.1 (mem_append_right _ (mem_prefixes.mpr ⟨?_, hpre⟩))
  intro hnil
  refine hok.root ?_
  rw [← hnil]
  unfold keys
  rw [hc]
  simp

section Operations

variable [DecidableEq κ]

/-! ## Operations -/

variable (c)

/-- The entry at a path. -/
def find (q : List κ) : Option ν :=
  (c.entries.find? fun e => decide (e.1 = q)).map Prod.snd

/-- Store an entry as the most recently used one. -/
def put (q : List κ) (v : ν) : PathCache κ ν :=
  ⟨c.entries.filter (fun e => decide (e.1 ≠ q)) ++ [(q, v)]⟩

/-- Make an entry the most recently used one. -/
def touch (q : List κ) : PathCache κ ν :=
  match c.find q with
  | none => c
  | some v => c.put q v

/-- Remove an entry and everything below it. -/
def drop (q : List κ) : PathCache κ ν :=
  ⟨c.entries.filter fun e => decide (¬ q <+: e.1)⟩

/-- Remove the oldest entry and everything below it; `none` on an empty cache. -/
def evict : Option (PathCache κ ν) := c.entries.head?.map fun e => c.drop e.1

variable {c}

/-- Store an entry in a cache of at most `cap` entries. -/
def putEvicting (cap : Nat) (c : PathCache κ ν) (q : List κ) (v : ν) : Option (PathCache κ ν) :=
  if (c.find q).isSome ∨ c.entries.length < cap then some (c.put q v)
  else c.evict.map fun c => c.put q v

/-! ## What is found -/

/-- Looking up a path among the entries whose paths pass a test. -/
theorem find?_filter_key (l : List (List κ × ν)) (r : List κ → Bool) (k : List κ) :
    ((l.filter fun e => r e.1).find? fun e => decide (e.1 = k)) =
      if r k then l.find? fun e => decide (e.1 = k) else none := by
  induction l with
  | nil => simp
  | cons e l ih =>
    rw [filter_cons]
    by_cases hk : e.1 = k
    · by_cases hr : r k
      · simp [hk, hr]
      · rw [if_neg (by rw [hk]; exact hr), ih, if_neg hr, if_neg hr]
    rw [find?_cons_of_neg (by simpa using hk), ← ih]
    split
    · rw [find?_cons_of_neg (by simpa using hk)]
    · rfl

theorem find_put {k : List κ} {v : ν} :
    (c.put q v).find k = if k = q then some v else c.find k := by
  unfold find put
  rw [find?_append, find?_filter_key c.entries (fun j => decide (j ≠ q)) k]
  by_cases hk : k = q
  · simp [hk]
  · simp [hk, Ne.symm hk]

theorem find_touch (c : PathCache κ ν) (q k : List κ) : (c.touch q).find k = c.find k := by
  unfold touch
  split
  · rfl
  rename_i v hv
  rw [find_put]
  split
  · rename_i hk
    rw [hk, hv]
  · rfl

theorem find_drop {c : PathCache κ ν} {q k : List κ} :
    (c.drop q).find k = if q <+: k then none else c.find k := by
  unfold find drop
  rw [find?_filter_key c.entries (fun j => decide (¬ q <+: j)) k]
  by_cases hq : q <+: k
  · simp [hq]
  · simp [hq]

theorem find_isSome : (c.find q).isSome ↔ q ∈ c.keys := by
  unfold find keys
  rw [Option.isSome_map, find?_isSome]
  simp only [decide_eq_true_eq, mem_map]

/-! ## Well-formed caches -/

theorem mem_keys_put {k : List κ} {v : ν} : k ∈ (c.put q v).keys ↔ k = q ∨ k ∈ c.keys := by
  rw [← find_isSome, ← find_isSome, find_put]
  split
  · rename_i hk
    simp [hk]
  · rename_i hk
    simp [hk]

theorem mem_keys_drop {k : List κ} : k ∈ (c.drop q).keys ↔ k ∈ c.keys ∧ ¬ q <+: k := by
  rw [← find_isSome, ← find_isSome, find_drop]
  split
  · rename_i hq
    simp [hq]
  · rename_i hq
    simp [hq]

theorem Ok.drop (h : c.Ok) (q : List κ) : (c.drop q).Ok := by
  refine ⟨?_, ?_, ?_⟩
  · exact h.nodup.sublist ((filter_sublist).map _)
  · intro hroot
    exact h.root (mem_keys_drop.mp hroot).1
  intro k hk j hj hjk
  obtain ⟨hk, hq⟩ := mem_keys_drop.mp hk
  refine mem_keys_drop.mpr ⟨h.closed k hk j hj hjk, ?_⟩
  intro hqj
  exact hq (hqj.trans hjk)

/-- An entry may be added below one that is there. -/
theorem Ok.put (h : c.Ok) {p : List κ} (a : κ) (v : ν)
    (hp : p = [] ∨ p ∈ c.keys) : (c.put (p ++ [a]) v).Ok := by
  refine ⟨?_, ?_, ?_⟩
  · unfold keys PathCache.put
    rw [map_append, nodup_append]
    refine ⟨h.nodup.sublist ((filter_sublist).map _), by simp, ?_⟩
    intro x hx y hy heq
    obtain ⟨e, he, rfl⟩ := mem_map.mp hx
    rw [map_cons, map_nil, mem_singleton] at hy
    have := (mem_filter.mp he).2
    simp only [ne_eq, decide_not, Bool.not_eq_true', decide_eq_false_iff_not] at this
    exact this (heq.trans hy)
  · intro hroot
    rcases mem_keys_put.mp hroot with heq | hroot
    · simp at heq
    · exact h.root hroot
  intro k hk j hj hjk
  rw [mem_keys_put]
  rcases mem_keys_put.mp hk with rfl | hk
  · -- a proper prefix of the new path is a prefix of its parent
    rcases prefix_concat_iff.mp hjk with heq | hjp
    · exact Or.inl heq
    · rcases hp with rfl | hp
      · exact absurd (prefix_nil.mp hjp) hj
      · exact Or.inr (h.closed p hp j hj hjp)
  · exact Or.inr (h.closed k hk j hj hjk)

theorem Ok.touch (h : c.Ok) (q : List κ) : (c.touch q).Ok := by
  unfold PathCache.touch
  split
  · exact h
  rename_i v hv
  have hmem : q ∈ c.keys := find_isSome.mp (by rw [hv]; rfl)
  have hne : q ≠ [] := by
    rintro rfl
    exact h.root hmem
  rw [← dropLast_append_getLast hne]
  refine h.put _ v ?_
  by_cases hnil : q.dropLast = []
  · exact Or.inl hnil
  · exact Or.inr (h.closed q hmem _ hnil (List.dropLast_prefix q))

/-! ## Walking down -/

/-- Storing the next entry of the walk continues the chain. -/
theorem Chain.put (h : c.Chain q) (a : κ) (v : ν) : (c.put (q ++ [a]) v).Chain (q ++ [a]) := by
  obtain ⟨pre, suf, hc, hsuf⟩ := h
  refine ⟨pre.filter (fun e => decide (e.1 ≠ q ++ [a])), suf ++ [(q ++ [a], v)], ?_, ?_⟩
  · have hself : suf.filter (fun e => decide (e.1 ≠ q ++ [a])) = suf := by
      rw [filter_eq_self]
      intro e he
      have hmem : e.1 ∈ prefixes q := by
        rw [← hsuf]
        exact mem_map_of_mem he
      have hlen := (mem_prefixes.mp hmem).2.length_le
      rw [decide_eq_true_eq]
      intro heq
      rw [heq, length_append, length_singleton] at hlen
      omega
    unfold PathCache.put
    rw [hc, filter_append, hself, append_assoc]
  · rw [map_append, hsuf, prefixes_concat]
    rfl

theorem Chain.touch (h : c.Chain q) {a : κ}
    (hmem : (c.find (q ++ [a])).isSome) : (c.touch (q ++ [a])).Chain (q ++ [a]) := by
  unfold PathCache.touch
  split
  · rename_i hnone
    rw [hnone] at hmem
    cases hmem
  · exact h.put a _

/-- Dropping something that is not on the way leaves the chain. -/
theorem Chain.drop {k : List κ} (h : c.Chain q) (hk : ¬ k <+: q) : (c.drop k).Chain q := by
  obtain ⟨pre, suf, hc, hsuf⟩ := h
  have hself : suf.filter (fun e => decide (¬ k <+: e.1)) = suf := by
    rw [filter_eq_self]
    intro e he
    have hmem : e.1 ∈ prefixes q := by
      rw [← hsuf]
      exact mem_map_of_mem he
    rw [decide_eq_true_eq]
    intro hke
    exact hk (hke.trans (mem_prefixes.mp hmem).2)
  refine ⟨pre.filter (fun e => decide (¬ k <+: e.1)), suf, ?_, hsuf⟩
  unfold PathCache.drop
  rw [hc, filter_append, hself]

/-- Storing the next entry of a walk in a bounded cache: it is there afterwards, with the
way to it, and nothing else is new. -/
theorem putEvicting_spec {cap : Nat} (hok : c.Ok) (hch : c.Chain q)
    (hcap : q.length < cap) {a : κ} {v : ν} :
    ∃ c', putEvicting cap c (q ++ [a]) v = some c' ∧ c'.Ok ∧ c'.Chain (q ++ [a]) ∧
      c'.find (q ++ [a]) = some v ∧
      ∀ k x, c'.find k = some x → (k = q ++ [a] ∧ x = v) ∨ c.find k = some x := by
  have hput : ∀ d : PathCache κ ν, d.Ok → d.Chain q →
      (∀ k x, d.find k = some x → c.find k = some x) →
      (d.put (q ++ [a]) v).Ok ∧ (d.put (q ++ [a]) v).Chain (q ++ [a]) ∧
      (d.put (q ++ [a]) v).find (q ++ [a]) = some v ∧
      ∀ k x, (d.put (q ++ [a]) v).find k = some x → (k = q ++ [a] ∧ x = v) ∨ c.find k = some x := by
    intro d hdok hdch hsub
    refine ⟨hdok.put a v hdch.mem, hdch.put a v, by rw [find_put, if_pos rfl], ?_⟩
    intro k x hx
    rw [find_put] at hx
    split at hx
    · rename_i hk
      exact Or.inl ⟨hk, (Option.some.inj hx).symm⟩
    · exact Or.inr (hsub k x hx)
  unfold putEvicting
  split
  · exact ⟨_, rfl, hput c hok hch (fun _ _ hx => hx)⟩
  -- the cache is full: the oldest entry goes, and it is not on the way
  rename_i hfull
  have hlen : cap ≤ c.entries.length := by
    simp only [not_or, not_lt] at hfull
    exact hfull.2
  rcases he : c.entries.head? with _ | e
  · rw [head?_eq_none_iff] at he
    rw [he] at hlen
    simp at hlen
    omega
  have hnot := hch.oldest hok he (by omega)
  refine ⟨(c.drop e.1).put (q ++ [a]) v, by simp [evict, he], ?_⟩
  refine hput _ (hok.drop e.1) (hch.drop hnot) ?_
  intro k x hx
  rw [find_drop] at hx
  split at hx
  · cases hx
  · exact hx

end Operations

end PathCache

end Vespera.Lib
