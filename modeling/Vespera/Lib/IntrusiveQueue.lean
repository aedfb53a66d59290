import Mathlib.Data.List.Basic
import Mathlib.Data.List.Nodup
import Mathlib.Logic.Function.Basic

/-! # Intrusive queues

Singly linked queues whose links are fields of the elements: a queue is a head and a
tail pointer, and the links of all elements, queued or not, are one function `next`.
Several queues may share it, as long as no element is in two of them.

`Rep next q l` says that `q` is the list `l`. Every operation comes with a lemma that
gives the list afterwards and says which links it may have changed (`ExceptOn`), so that
`Rep.frame` carries the other queues along.

The loops follow pointers, which may form a cycle when a queue is damaged; they take a
bound on the number of steps, which a sound queue does not reach.
-/

namespace Vespera.Lib

open Function List

/-- Head and tail of a queue. -/
structure IntrusiveQueue (α : Type) where
  head : Option α
  tail : Option α
deriving DecidableEq, Repr

namespace IntrusiveQueue

variable {α : Type} {next : α → Option α} {q : IntrusiveQueue α} {l : List α}

/-! ## Linked segments -/

/-- Following the links from `h` gives the elements of the list and then `e`. -/
def LSeg (next : α → Option α) : Option α → List α → Option α → Prop
  | h, [], e => h = e
  | h, a :: l, e => h = some a ∧ LSeg next (next a) l e

theorem lseg_append {h e : Option α} {m : List α} :
    LSeg next h (l ++ m) e ↔ ∃ k, LSeg next h l k ∧ LSeg next k m e := by
  induction l generalizing h with
  | nil => simp [LSeg]
  | cons a l ih =>
    simp only [cons_append, LSeg, ih]
    constructor
    · rintro ⟨hh, k, hl, hm⟩
      exact ⟨k, ⟨hh, hl⟩, hm⟩
    · rintro ⟨k, ⟨hh, hl⟩, hm⟩
      exact ⟨hh, k, hl, hm⟩

theorem lseg_concat {h e : Option α} {a : α} :
    LSeg next h (l ++ [a]) e ↔ LSeg next h l (some a) ∧ next a = e := by
  rw [lseg_append]
  constructor
  · rintro ⟨k, hl, rfl, he⟩
    exact ⟨hl, he⟩
  · rintro ⟨hl, he⟩
    exact ⟨some a, hl, rfl, he⟩

/-- A segment depends on the links of its elements only. -/
theorem LSeg.congr {next' : α → Option α} {h e : Option α}
    (hseg : LSeg next h l e) (hsame : ∀ x ∈ l, next' x = next x) : LSeg next' h l e := by
  induction l generalizing h with
  | nil => exact hseg
  | cons a l ih =>
    obtain ⟨hh, hseg⟩ := hseg
    refine ⟨hh, ?_⟩
    rw [hsame a (by simp)]
    exact ih hseg fun x hx => hsame x (mem_cons_of_mem a hx)

/-- The queue is this list. -/
structure Rep (next : α → Option α) (q : IntrusiveQueue α) (l : List α) : Prop where
  seg : LSeg next q.head l none
  tail : q.tail = l.getLast?
  nodup : l.Nodup

theorem rep_empty (next : α → Option α) : Rep next ⟨none, none⟩ [] := ⟨rfl, rfl, nodup_nil⟩

/-- Only the links of its own elements matter to a queue. -/
theorem Rep.frame {next' : α → Option α} (h : Rep next q l)
    (hsame : ∀ x ∈ l, next' x = next x) : Rep next' q l :=
  ⟨h.seg.congr hsame, h.tail, h.nodup⟩

/-- The two ends of a queue that is not empty. -/
theorem Rep.ends {a : α} (h : Rep next q (l ++ [a])) : q.tail = some a ∧ ∃ b, q.head = some b := by
  refine ⟨by rw [h.tail, getLast?_concat], ?_⟩
  rcases l with _ | ⟨b, l⟩
  · exact ⟨a, h.seg.1⟩
  · exact ⟨b, h.seg.1⟩

/-- The links differ on these elements at most. -/
def ExceptOn (next next' : α → Option α) (l : List α) : Prop := ∀ x, x ∉ l → next' x = next x

/-! ## Reading a queue -/

/-- The first `fuel` elements from a pointer on. -/
def follow (next : α → Option α) : Nat → Option α → List α
  | 0, _ => []
  | _ + 1, none => []
  | fuel + 1, some a => a :: follow next fuel (next a)

/-- Following the links gives the list, with fuel for its length. -/
theorem LSeg.follow {h : Option α} (hseg : LSeg next h l none)
    {fuel : Nat} (hfuel : l.length ≤ fuel) : follow next fuel h = l := by
  induction l generalizing h fuel with
  | nil =>
    obtain rfl : h = none := hseg
    cases fuel with
    | zero => rfl
    | succ fuel => rfl
  | cons a l ih =>
    obtain ⟨rfl, hseg⟩ := hseg
    rw [length_cons] at hfuel
    obtain ⟨fuel, rfl⟩ : ∃ k, fuel = k + 1 := ⟨fuel - 1, by omega⟩
    rw [IntrusiveQueue.follow, ih hseg (by omega)]

section Operations

variable [DecidableEq α]

/-! ## Push and pop -/

/-- Append an element. -/
def push (next : α → Option α) (q : IntrusiveQueue α) (e : α) : (α → Option α) × IntrusiveQueue α :=
  match q.head with
  | none => (update next e none, ⟨some e, some e⟩)
  | some _ =>
    let linked := match q.tail with
      | none => next
      | some t => update next t (some e)
    (update linked e none, ⟨q.head, some e⟩)

/-- Take the first element. -/
def pop (next : α → Option α) (q : IntrusiveQueue α) :
    Option α × (α → Option α) × IntrusiveQueue α :=
  match q.head with
  | none => (none, next, q)
  | some e =>
    (some e, update next e none, ⟨next e, if next e = none then none else q.tail⟩)

/-- An element that is in the queue must not be pushed. -/
theorem push_rep {e : α} (h : Rep next q l) (he : e ∉ l) :
    Rep (push next q e).1 (push next q e).2 (l ++ [e]) ∧ ExceptOn next (push next q e).1
    (e :: l) := by
  have hnodup : (l ++ [e]).Nodup := by
    rw [nodup_append]
    refine ⟨h.nodup, nodup_singleton e, ?_⟩
    intro x hx y hy hxy
    rw [mem_singleton] at hy
    exact he (hy ▸ hxy ▸ hx)
  unfold push
  rcases eq_nil_or_concat l with rfl | ⟨l, t, rfl⟩
  · -- the first element
    have hhead : q.head = none := h.seg
    rw [hhead]
    refine ⟨⟨⟨rfl, ?_⟩, rfl, hnodup⟩, ?_⟩
    · show update next e none e = none
      rw [update_self]
    · intro x hx
      exact update_of_ne (by simpa using hx) _ _
  rw [concat_eq_append] at *
  obtain ⟨htail, b, hb⟩ := h.ends
  obtain ⟨hseg, -⟩ := lseg_concat.mp h.seg
  have hte : t ≠ e := by
    rintro rfl
    simp at he
  have hl : ∀ x ∈ l, x ≠ e ∧ x ≠ t := by
    intro x hx
    refine ⟨?_, ?_⟩
    · rintro rfl
      exact he (mem_append_left _ hx)
    · rintro rfl
      exact (nodup_append.mp h.nodup).2.2 x hx x (by simp) rfl
  rw [hb, htail]
  dsimp only
  refine ⟨⟨?_, ?_, hnodup⟩, ?_⟩
  · rw [lseg_concat, lseg_concat, update_self, update_of_ne hte, update_self]
    refine ⟨⟨?_, rfl⟩, rfl⟩
    rw [← hb]
    refine hseg.congr ?_
    intro x hx
    rw [update_of_ne (hl x hx).1, update_of_ne (hl x hx).2]
  · rw [getLast?_concat]
  · intro x hx
    simp only [mem_cons, mem_append, not_mem_nil, or_false, not_or] at hx
    rw [update_of_ne hx.1, update_of_ne hx.2.2]

theorem pop_nil (h : Rep next q []) : pop next q = (none, next, q) := by
  have hhead : q.head = none := h.seg
  unfold pop
  rw [hhead]

theorem pop_rep {a : α} (h : Rep next q (a :: l)) :
    (pop next q).1 = some a ∧ Rep (pop next q).2.1 (pop next q).2.2 l ∧
      ExceptOn next (pop next q).2.1 [a] := by
  obtain ⟨hhead, hseg⟩ := h.seg
  have hal : a ∉ l := (nodup_cons.mp h.nodup).1
  unfold pop
  rw [hhead]
  refine ⟨rfl, ⟨?_, ?_, (nodup_cons.mp h.nodup).2⟩, ?_⟩
  · refine hseg.congr ?_
    intro x hx
    exact update_of_ne (by rintro rfl; exact hal hx) _ _
  · show (if next a = none then none else q.tail) = l.getLast?
    rcases l with _ | ⟨b, l⟩
    · rw [if_pos (show next a = none from hseg)]
      rfl
    · rw [if_neg (by rw [hseg.1]; simp), h.tail, getLast?_cons_cons]
  · intro x hx
    exact update_of_ne (by simpa using hx) _ _

/-! ## Remove -/

/-- The loop of `remove`: `prev` is in front of `cur`. -/
def removeLoop (next : α → Option α) (q : IntrusiveQueue α) (target : α) :
    Nat → α → Option α → Bool × (α → Option α) × IntrusiveQueue α
  | 0, _, _ => (false, next, q)
  | _ + 1, _, none => (false, next, q)
  | fuel + 1, prev, some cur =>
    if cur = target then
      (true, update (update next prev (next cur)) cur none,
        if q.tail = some cur then ⟨q.head, some prev⟩ else q)
    else removeLoop next q target fuel cur (next cur)

/-- Take out one element, if it is there. -/
def remove (fuel : Nat) (next : α → Option α) (q : IntrusiveQueue α) (target : α) :
    Bool × (α → Option α) × IntrusiveQueue α :=
  match q.head with
  | none => (false, next, q)
  | some h =>
    if h = target then
      (true, update next target none, ⟨next h, if next h = none then none else q.tail⟩)
    else removeLoop next q target fuel h (next h)

/-- What `remove` does to a queue that is the list `l`. -/
structure Removed (next : α → Option α) (l : List α) (target : α)
    (r : Bool × (α → Option α) × IntrusiveQueue α) : Prop where
  found : r.1 = decide (target ∈ l)
  rep : Rep r.2.1 r.2.2 (l.erase target)
  frame : ExceptOn next r.2.1 l

theorem removed_of_not_mem {target : α}
    (h : Rep next q l) (hnot : target ∉ l) : Removed next l target (false, next, q) :=
  ⟨by simp [hnot], by rw [erase_of_not_mem hnot]; exact h, fun _ _ => rfl⟩

/-- Unlinking an element that stands behind `prev`. -/
theorem removed_behind {pre rest : List α} {prev c : α}
    (h : Rep next q (pre ++ prev :: c :: rest)) : Removed next (pre ++ prev :: c :: rest) c
      (true, update (update next prev (next c)) c none,
        if q.tail = some c then ⟨q.head, some prev⟩ else q) := by
  have hsplit : pre ++ prev :: c :: rest = (pre ++ [prev]) ++ c :: rest := by simp
  have hnodup := h.nodup
  rw [hsplit] at hnodup
  obtain ⟨hfrontnd, hbacknd, hdisj⟩ := nodup_append.mp hnodup
  obtain ⟨-, -, hprev⟩ := nodup_append.mp hfrontnd
  obtain ⟨hc, hrest⟩ := nodup_cons.mp hbacknd
  have hcpre : c ∉ pre ++ [prev] := fun hmem => hdisj c hmem c (by simp) rfl
  have herase : (pre ++ prev :: c :: rest).erase c = (pre ++ [prev]) ++ rest := by
    rw [hsplit, erase_append_right _ hcpre, erase_cons_head]
  have hseg := h.seg
  rw [hsplit, lseg_append] at hseg
  obtain ⟨k, hfront, rfl, hback⟩ := hseg
  obtain ⟨hfront, -⟩ := lseg_concat.mp hfront
  have hpc : prev ≠ c := by
    rintro rfl
    simp at hcpre
  have hlinks : ∀ x, x ≠ prev → x ≠ c →
      update (update next prev (next c)) c none x = next x := by
    intro x hxp hxc
    rw [update_of_ne hxc, update_of_ne hxp]
  have hlinkprev : update (update next prev (next c)) c none prev = next c := by
    rw [update_of_ne hpc, update_self]
  refine ⟨by simp, ⟨?_, ?_, ?_⟩, ?_⟩
  · have hhead : (if q.tail = some c then (⟨q.head, some prev⟩ : IntrusiveQueue α) else q).head = q.head := by
      split <;> rfl
    rw [herase, hhead, lseg_append]
    -- the part in front, the new link, the part behind
    refine ⟨next c, lseg_concat.mpr ⟨hfront.congr ?_, hlinkprev⟩, hback.congr ?_⟩
    · intro x hx
      refine hlinks x ?_ ?_
      · rintro rfl
        exact hprev x hx x (by simp) rfl
      · rintro rfl
        exact hcpre (mem_append_left _ hx)
    intro x hx
    refine hlinks x ?_ ?_
    · rintro rfl
      exact hdisj x (by simp) x (mem_cons_of_mem c hx) rfl
    · rintro rfl
      exact hc hx
  · -- the tail moves exactly when the last element goes
    have htail := h.tail
    rw [hsplit, getLast?_append_of_ne_nil _ (cons_ne_nil _ _)] at htail
    rw [herase]
    rcases rest with _ | ⟨b, rest⟩
    · rw [getLast?_singleton] at htail
      rw [if_pos htail, append_nil, getLast?_concat]
    rw [getLast?_cons_cons] at htail
    rw [if_neg, htail, getLast?_append_of_ne_nil _ (cons_ne_nil _ _)]
    rw [htail]
    exact fun hlast => hc (mem_of_getLast? hlast)
  · exact h.nodup.erase c
  · intro x hx
    simp only [mem_append, mem_cons, not_or] at hx
    exact hlinks x hx.2.1 hx.2.2.1

theorem removeLoop_removed {target : α} {pre rest : List α} {prev : α} (fuel : Nat)
    (h : Rep next q (pre ++ prev :: rest)) (hnot : target ∉ pre ++ [prev]) :
    Removed next (pre ++ prev :: rest) target
      (removeLoop next q target (fuel + rest.length + 1) prev (next prev)) := by
  induction rest generalizing pre prev with
  | nil =>
    have hend : next prev = none := (lseg_concat.mp h.seg).2
    rw [hend, removeLoop]
    exact removed_of_not_mem h hnot
  | cons c rest ih =>
    have hcur : next prev = some c := by
      have hseg := h.seg
      rw [show pre ++ prev :: c :: rest = (pre ++ [prev]) ++ c :: rest by simp, lseg_append] at hseg
      obtain ⟨k, hfront, rfl, -⟩ := hseg
      exact (lseg_concat.mp hfront).2
    rw [hcur, removeLoop]
    split
    · rename_i heq
      subst heq
      exact removed_behind h
    rename_i hne
    have hstep : pre ++ prev :: c :: rest = (pre ++ [prev]) ++ c :: rest := by simp
    rw [hstep] at h ⊢
    refine ih h ?_
    simp only [mem_append, mem_singleton, not_or] at hnot ⊢
    exact ⟨hnot, fun heq => hne heq.symm⟩

theorem remove_removed (h : Rep next q l) (target : α) {fuel : Nat} (hfuel : l.length ≤ fuel) :
    Removed next l target (remove fuel next q target) := by
  unfold remove
  rcases l with _ | ⟨a, l⟩
  · have hhead : q.head = none := h.seg
    rw [hhead]
    exact removed_of_not_mem h (by simp)
  obtain ⟨fuel, rfl⟩ := Nat.exists_eq_add_of_le' hfuel
  rw [h.seg.1]
  dsimp only
  split
  · -- the first element: as `pop` does
    rename_i heq
    subst heq
    obtain ⟨-, hrep, hframe⟩ := pop_rep h
    unfold pop at hrep hframe
    rw [h.seg.1] at hrep hframe
    refine ⟨by simp, ?_, ?_⟩
    · rw [erase_cons_head]
      exact hrep
    intro x hx
    refine hframe x ?_
    simp only [mem_cons, not_or] at hx
    simpa using hx.1
  · rename_i hne
    have hrep : Rep next q ([] ++ a :: l) := h
    exact removeLoop_removed fuel hrep (by simpa using fun heq => hne heq.symm)

/-! ## Extract -/

/-- Take out `c`, which stands behind `prev`, or first if there is none. -/
def unlink (next : α → Option α) (q : IntrusiveQueue α) (prev : Option α) (c : α) :
    (α → Option α) × IntrusiveQueue α :=
  match prev with
  | some p =>
    (update (update next p (next c)) c none,
      if q.tail = some c then ⟨q.head, some p⟩ else q)
  | none =>
    (update next c none, ⟨next c, if q.tail = some c then none else q.tail⟩)

/-- Append an element without a successor to the result. -/
def linkResult (next : α → Option α) (result : IntrusiveQueue α) (c : α) :
    (α → Option α) × IntrusiveQueue α :=
  match result.tail with
  | some t => (update next t (some c), ⟨result.head, some c⟩)
  | none => (next, ⟨some c, some c⟩)

/-- The loop of `extractIf`. -/
def extractLoop (pred : α → Bool) : Nat → Option α → Option α → (α → Option α) → IntrusiveQueue α →
    IntrusiveQueue α → IntrusiveQueue α × (α → Option α) × IntrusiveQueue α
  | 0, _, _, next, q, result => (result, next, q)
  | _ + 1, _, none, next, q, result => (result, next, q)
  | fuel + 1, prev, some c, next, q, result =>
    if pred c then
      let unlinked := unlink next q prev c
      let linked := linkResult unlinked.1 result c
      extractLoop pred fuel prev (next c) linked.1 unlinked.2 linked.2
    else extractLoop pred fuel (some c) (next c) next q result

/-- Take out all elements that pass the test, as a linked list of their own. -/
def extractIf (fuel : Nat) (next : α → Option α) (q : IntrusiveQueue α) (pred : α → Bool) :
    IntrusiveQueue α × (α → Option α) × IntrusiveQueue α :=
  extractLoop pred fuel none q.head next q ⟨none, none⟩

theorem unlink_rep {kept rest : List α} {c : α} (h : Rep next q (kept ++ c :: rest)) :
    Rep (unlink next q kept.getLast? c).1 (unlink next q kept.getLast? c).2 (kept ++ rest) ∧
      ExceptOn next (unlink next q kept.getLast? c).1 (kept ++ [c]) ∧
      (unlink next q kept.getLast? c).1 c = none := by
  rcases eq_nil_or_concat kept with rfl | ⟨kept, p, rfl⟩
  · -- at the front: as `pop` does
    obtain ⟨-, hrep, hframe⟩ := pop_rep h
    unfold pop at hrep hframe
    rw [h.seg.1] at hrep hframe
    have htail : next c = none ↔ q.tail = some c := by
      rcases rest with _ | ⟨b, rest⟩
      · exact iff_of_true h.seg.2 h.tail
      -- the last element is behind the first
      have hlast : q.tail = (b :: rest).getLast? := h.tail
      refine iff_of_false (by rw [h.seg.2.1]; nofun) fun hc => ?_
      rw [hlast] at hc
      exact (nodup_cons.mp h.nodup).1 (mem_of_getLast? hc)
    dsimp only at hrep hframe
    simp only [htail] at hrep
    refine ⟨hrep, hframe, ?_⟩
    show update next c none c = none
    rw [update_self]
  rw [concat_eq_append] at *
  have hsplit : (kept ++ [p]) ++ c :: rest = kept ++ p :: c :: rest := by simp
  rw [hsplit] at h
  obtain ⟨-, hrep, -⟩ := removed_behind h
  have hc : c ∉ kept ++ [p] := by
    have hnodup := h.nodup
    rw [← hsplit, nodup_append] at hnodup
    exact fun hmem => hnodup.2.2 c hmem c (by simp) rfl
  rw [← hsplit, erase_append_right _ hc, erase_cons_head] at hrep
  rw [getLast?_concat]
  refine ⟨hrep, ?_, ?_⟩
  · intro x hx
    simp only [mem_append, mem_singleton, not_or] at hx
    show update (update next p (next c)) c none x = next x
    rw [update_of_ne hx.2, update_of_ne hx.1.2]
  · show update (update next p (next c)) c none c = none
    rw [update_self]

theorem linkResult_rep {result : IntrusiveQueue α} {c : α}
    (h : Rep next result l) (hc : c ∉ l) (hnext : next c = none) :
    Rep (linkResult next result c).1 (linkResult next result c).2 (l ++ [c]) ∧
      ExceptOn next (linkResult next result c).1 l := by
  obtain ⟨hrep, hframe⟩ := push_rep h hc
  have hpush : linkResult next result c = push next result c := by
    unfold linkResult push
    rcases eq_nil_or_concat l with rfl | ⟨l, t, rfl⟩
    · have hhead : result.head = none := h.seg
      have htail : result.tail = none := h.tail
      have hsame : update next c none = next := by
        rw [← hnext, update_eq_self]
      rw [hhead, htail]
      rw [hsame]
    rw [concat_eq_append] at *
    obtain ⟨htail, b, hb⟩ := h.ends
    have hct : c ≠ t := by
      rintro rfl
      simp at hc
    have hsame : update (update next t (some c)) c none =
        update next t (some c) := by
      rw [update_eq_self_iff, update_of_ne hct, hnext]
    rw [hb, htail]
    dsimp only
    rw [hsame]
  rw [hpush]
  refine ⟨hrep, ?_⟩
  intro x hx
  by_cases hxc : x = c
  · -- the new element has no successor before or after
    subst hxc
    rw [(lseg_concat.mp hrep.seg).2, hnext]
  · exact hframe x (by simp [hx, hxc])

/-- The loop, when `kept` has been passed over, `rest` is still to come and `taken` is the
result so far. -/
theorem extractLoop_rep {pred : α → Bool} {fuel : Nat} {rest kept taken : List α}
    {result : IntrusiveQueue α} (h : Rep next q (kept ++ rest)) (hres : Rep next result taken)
    (hdisj : ∀ x ∈ kept ++ rest, x ∉ taken) {cur : Option α} (hcur : LSeg next cur rest none)
    {r : IntrusiveQueue α × (α → Option α) × IntrusiveQueue α}
    (hr : extractLoop pred (fuel + rest.length + 1) kept.getLast? cur next q result = r) :
    Rep r.2.1 r.2.2 (kept ++ rest.filter fun x => !pred x) ∧
      Rep r.2.1 r.1 (taken ++ rest.filter pred) ∧ ExceptOn next r.2.1 (kept ++ rest ++ taken) := by
  induction rest generalizing next q result kept taken cur with
  | nil =>
    obtain rfl : cur = none := hcur
    rw [extractLoop] at hr
    subst hr
    rw [filter_nil, filter_nil, append_nil taken]
    exact ⟨h, hres, fun x _ => rfl⟩
  | cons c rest ih =>
    obtain ⟨rfl, hrest⟩ := hcur
    rw [extractLoop] at hr
    by_cases hp : pred c
    · -- taken: unlinked here, appended there
      rw [if_pos hp] at hr
      obtain ⟨hq, hframe, hnone⟩ := unlink_rep h
      have hct : c ∉ taken := hdisj c (by simp)
      have hcrest : c ∉ rest := by
        have := (nodup_append.mp h.nodup).2.1
        exact (nodup_cons.mp this).1
      have hkrest : ∀ x ∈ kept, x ∉ c :: rest :=
        fun x hx hxr => (nodup_append.mp h.nodup).2.2 x hx x hxr rfl
      have htaken : Rep (unlink next q kept.getLast? c).1 result taken := by
        refine hres.frame ?_
        intro x hx
        refine hframe x ?_
        intro hmem
        rcases mem_append.mp hmem with hk | hc
        · exact hdisj x (mem_append_left _ hk) hx
        · rw [mem_singleton] at hc
          exact hct (hc ▸ hx)
      obtain ⟨hres', hframe'⟩ := linkResult_rep htaken hct hnone
      have hq' : Rep (linkResult (unlink next q kept.getLast? c).1 result c).1
          (unlink next q kept.getLast? c).2 (kept ++ rest) := by
        refine hq.frame ?_
        intro x hx
        refine hframe' x ?_
        refine hdisj x ?_
        simp only [mem_append, mem_cons] at hx ⊢
        tauto
      have hcur' : LSeg (linkResult (unlink next q kept.getLast? c).1 result c).1 (next c) rest none := by
        refine hrest.congr ?_
        intro x hx
        rw [hframe' x (hdisj x (by simp [hx])), hframe x]
        intro hmem
        rcases mem_append.mp hmem with hk | hc
        · exact hkrest x hk (mem_cons_of_mem c hx)
        · rw [mem_singleton] at hc
          exact hcrest (hc ▸ hx)
      have hdisj' : ∀ x ∈ kept ++ rest, x ∉ taken ++ [c] := by
        intro x hx hmem
        rcases mem_append.mp hmem with ht | hc
        · refine hdisj x ?_ ht
          simp only [mem_append, mem_cons] at hx ⊢
          tauto
        rw [mem_singleton] at hc
        subst hc
        rcases mem_append.mp hx with hk | hr
        · exact hkrest x hk (by simp)
        · exact hcrest hr
      obtain ⟨h1, h2, h3⟩ := ih hq' hres' hdisj' hcur' hr
      rw [filter_cons_of_neg (by simp [hp]), filter_cons_of_pos hp]
      refine ⟨h1, ?_, ?_⟩
      · rw [append_assoc, singleton_append] at h2
        exact h2
      intro x hx
      simp only [mem_append, mem_cons, not_or] at hx
      rw [h3 x (by simp only [mem_append, mem_singleton, not_or]; tauto), hframe' x hx.2,
        hframe x (by simp only [mem_append, mem_singleton, not_or]; tauto)]
    -- kept
    have hstep : kept ++ c :: rest = (kept ++ [c]) ++ rest := by simp
    have hlast : some c = (kept ++ [c]).getLast? := getLast?_concat.symm
    rw [if_neg hp, hlast] at hr
    rw [hstep] at h hdisj
    obtain ⟨h1, h2, h3⟩ := ih h hres hdisj hrest hr
    rw [filter_cons_of_pos (by simp [hp]), filter_cons_of_neg hp]
    refine ⟨?_, h2, ?_⟩
    · rw [show kept ++ c :: rest.filter (fun x => !pred x) =
        (kept ++ [c]) ++ rest.filter (fun x => !pred x) by simp]
      exact h1
    · rw [hstep]
      exact h3

/-- `extractIf` splits the queue in two. -/
theorem extractIf_rep (h : Rep next q l) (pred : α → Bool) {fuel : Nat} (hfuel : l.length < fuel) :
    Rep (extractIf fuel next q pred).2.1 (extractIf fuel next q pred).2.2
    (l.filter fun x => !pred x) ∧
      Rep (extractIf fuel next q pred).2.1 (extractIf fuel next q pred).1 (l.filter pred) ∧
      ExceptOn next (extractIf fuel next q pred).2.1 l := by
  obtain ⟨fuel, rfl⟩ := Nat.exists_eq_add_of_le' (Nat.succ_le_of_lt hfuel)
  have hrep : Rep next q ([] ++ l) := h
  have hloop := extractLoop_rep (r := extractIf (fuel + l.length.succ) next q pred) hrep
    (rep_empty next) (by simp) h.seg rfl
  simpa using hloop

end Operations

end IntrusiveQueue

end Vespera.Lib
