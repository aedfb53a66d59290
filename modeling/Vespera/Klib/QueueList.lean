import Vespera.Lib.IntrusiveQueue
import Vespera.Lib.Run

/-! # `klib/intrusive_queue.h` is a list

The calls of `IntrusiveQueue` on the links of all nodes, and the same calls on a list.

* `queueCall_rep`: what one call does to a queue that is the list `l`;
* `queue_is_list`: every sequence of calls answers as the list does.
-/

namespace Vespera.Klib

open Function List Lib Lib.IntrusiveQueue

variable {α : Type} [DecidableEq α] {next : α → Option α} {q : IntrusiveQueue α} {l : List α}

/-- `push_front`. -/
def pushFront (next : α → Option α) (q : IntrusiveQueue α) (e : α) :
    (α → Option α) × IntrusiveQueue α :=
  (update next e q.head, ⟨some e, if q.tail = none then some e else q.tail⟩)

/-- A call of the queue. -/
inductive QueueCall (α : Type) where
  | push (e : α)
  | pushFront (e : α)
  | pop
  | remove (target : α)
  | extractIf (pred : α → Bool)

/-- What a call gives back: with the node taken out its link, with the extracted nodes, as
far as their links lead, the last of them. -/
inductive QueueAnswer (α : Type) where
  | done
  | node (e : Option α) (link : Option α)
  | found (b : Bool) (link : Option α)
  | nodes (l : List α) (outTail : Option α)
deriving DecidableEq

/-- A call on the links and the two ends. The loops are cut off after `fuel` steps. -/
def queueCall (fuel : Nat) (s : (α → Option α) × IntrusiveQueue α) :
    QueueCall α → ((α → Option α) × IntrusiveQueue α) × QueueAnswer α
  | .push e => (push s.1 s.2 e, .done)
  | .pushFront e => (pushFront s.1 s.2 e, .done)
  | .pop => let r := pop s.1 s.2; (r.2, .node r.1 (r.1.bind r.2.1))
  | .remove target =>
    let r := remove fuel s.1 s.2 target
    (r.2, .found r.1 (if r.1 then r.2.1 target else none))
  | .extractIf pred =>
    let r := extractIf fuel s.1 s.2 pred
    (r.2, .nodes (follow r.2.1 fuel r.1.head) r.1.tail)

/-- The same call on a list. -/
def listCall (l : List α) : QueueCall α → List α × QueueAnswer α
  | .push e => (l ++ [e], .done)
  | .pushFront e => (e :: l, .done)
  | .pop => (l.tail, .node l.head? none)
  | .remove target => (l.erase target, .found (decide (target ∈ l)) none)
  | .extractIf pred =>
    (l.filter fun x => !pred x, .nodes (l.filter pred) (l.filter pred).getLast?)

/-- Only nodes that are not in the queue are pushed. -/
def Fresh (l : List α) : QueueCall α → Prop
  | .push e => e ∉ l
  | .pushFront e => e ∉ l
  | _ => True

theorem pushFront_rep {e : α} (h : Rep next q l) (he : e ∉ l) :
    Rep (pushFront next q e).1 (pushFront next q e).2 (e :: l) := by
  refine ⟨⟨rfl, ?_⟩, ?_, nodup_cons.mpr ⟨he, h.nodup⟩⟩
  · show LSeg (update next e q.head) (update next e q.head e) l none
    rw [update_self]
    refine h.seg.congr ?_
    intro x hx
    exact update_of_ne (by rintro rfl; exact he hx) _ _
  · show (if q.tail = none then some e else q.tail) = (e :: l).getLast?
    rw [h.tail]
    rcases l with _ | ⟨b, l⟩
    · rfl
    · rw [if_neg (by simp), getLast?_cons_cons]

/-- A removed node has no successor. -/
theorem removeLoop_link {target : α} {fuel : Nat} {prev : α} {cur : Option α}
    (h : (removeLoop next q target fuel prev cur).1 = true) :
    (removeLoop next q target fuel prev cur).2.1 target = none := by
  induction fuel generalizing prev cur with
  | zero => cases h
  | succ fuel ih =>
    rcases cur with _ | cur
    · cases h
    rw [removeLoop] at h ⊢
    split at h
    · rename_i heq
      rw [if_pos heq, heq]
      exact update_self ..
    · rename_i hne
      rw [if_neg hne]
      exact ih h

theorem remove_link {target : α} {fuel : Nat} (h : (remove fuel next q target).1 = true) :
    (remove fuel next q target).2.1 target = none := by
  unfold remove at h ⊢
  split at h
  · cases h
  · split at h
    · rename_i heq
      rw [if_pos heq]
      exact update_self ..
    · rename_i hne
      rw [if_neg hne]
      exact removeLoop_link h

/-- One call: the queue answers as its list does, and is the list afterwards. -/
theorem queueCall_rep {fuel : Nat} {c : QueueCall α} (h : Rep next q l) (hc : Fresh l c)
    (hfuel : l.length < fuel) :
    (queueCall fuel (next, q) c).2 = (listCall l c).2 ∧
      Rep (queueCall fuel (next, q) c).1.1 (queueCall fuel (next, q) c).1.2 (listCall l c).1 ∧
      (listCall l c).1.length ≤ l.length + 1 := by
  cases c with
  | push e => exact ⟨rfl, (push_rep h hc).1, by simp [listCall]⟩
  | pushFront e => exact ⟨rfl, pushFront_rep h hc, by simp [listCall]⟩
  | pop =>
    rcases l with _ | ⟨a, l⟩
    · simp only [queueCall, pop_nil h]
      exact ⟨rfl, h, Nat.zero_le _⟩
    have hlink : (pop next q).2.1 a = none := by
      simp only [pop, h.seg.1, update_self]
    obtain ⟨hans, hrep, -⟩ := pop_rep h
    refine ⟨?_, hrep, by simp only [listCall, tail_cons, length_cons]; omega⟩
    simp only [queueCall, hans, Option.bind_some, hlink, listCall, head?_cons]
  | remove target =>
    obtain ⟨hfound, hrep, -⟩ := remove_removed h target (Nat.le_of_lt hfuel)
    refine ⟨?_, hrep, Nat.le_succ_of_le length_erase_le⟩
    have hlink : (if (remove fuel next q target).1 then (remove fuel next q target).2.1 target
        else none) = none := by
      split
      · rename_i hyes
        exact remove_link hyes
      · rfl
    show QueueAnswer.found _ _ = _
    rw [hlink, hfound]
    rfl
  | extractIf pred =>
    obtain ⟨hkept, htaken, -⟩ := extractIf_rep h pred hfuel
    refine ⟨?_, hkept, Nat.le_succ_of_le (length_filter_le _ l)⟩
    have hlen := Nat.le_trans (length_filter_le pred l) (Nat.le_of_lt hfuel)
    simp only [queueCall, htaken.seg.follow hlen, htaken.tail, listCall]

/-- The run, from any queue that is a list. -/
theorem queueCalls_rep {fuel : Nat} {calls : List (QueueCall α)} (h : Rep next q l)
    (hfresh : Along listCall Fresh l calls) (hfuel : l.length + calls.length < fuel) :
    answers (queueCall fuel) (next, q) calls = answers listCall l calls ∧
      Rep (final (queueCall fuel) (next, q) calls).1 (final (queueCall fuel) (next, q) calls).2
        (final listCall l calls) := by
  induction calls generalizing next q l with
  | nil => exact ⟨rfl, h⟩
  | cons c calls ih =>
    rw [length_cons] at hfuel
    obtain ⟨hans, hrep, hlen⟩ := queueCall_rep h hfresh.1 (by omega : l.length < fuel)
    obtain ⟨hrest, hfinal⟩ := ih hrep hfresh.2 (by omega)
    exact ⟨congrArg₂ cons hans hrest, hfinal⟩

/-- From an empty queue, with whatever links the nodes have, every sequence of calls gives the
answers the list gives: `pop` the first node, `remove` whether it was there, `extract_if` the
nodes that pass in their order, and no link from a node taken out. The nodes from `head_` on
are the list, without a repetition and to the end, which is `tail_`. -/
theorem queue_is_list (next : α → Option α) {calls : List (QueueCall α)} {fuel : Nat}
    (hfresh : Along listCall Fresh [] calls) (hfuel : calls.length < fuel) :
    answers (queueCall fuel) (next, ⟨none, none⟩) calls = answers listCall [] calls ∧
      let s := final (queueCall fuel) (next, ⟨none, none⟩) calls
      let l := final listCall [] calls
      LSeg s.1 s.2.head l none ∧ l.Nodup ∧ s.2.tail = l.getLast? ∧
        (s.2.head = none ↔ s.2.tail = none) ∧ ∀ t, s.2.tail = some t → s.1 t = none := by
  obtain ⟨hans, hrep⟩ := queueCalls_rep (rep_empty next) hfresh (by simpa using hfuel)
  refine ⟨hans, ?_⟩
  intro s l
  refine ⟨hrep.seg, hrep.nodup, hrep.tail, ?_⟩
  rcases eq_nil_or_concat l with hl | ⟨l', a, hl⟩
  · have hempty : Rep s.1 s.2 [] := hl ▸ hrep
    have htail : s.2.tail = none := hempty.tail
    rw [htail]
    exact ⟨iff_of_true hempty.seg rfl, nofun⟩
  · have hfull : Rep s.1 s.2 (l' ++ [a]) := by
      rw [← concat_eq_append, ← hl]
      exact hrep
    obtain ⟨htail, b, hb⟩ := hfull.ends
    rw [htail, hb]
    refine ⟨iff_of_false nofun nofun, ?_⟩
    rintro t ⟨⟩
    exact (lseg_concat.mp hfull.seg).2

theorem queue_is_list_four :
    answers (queueCall 5) ((fun _ : Nat => none), ⟨none, none⟩)
      [.push 7, .pushFront 5, .remove 7, .extractIf (· == 5)] =
      [.done, .done, .found true none, .nodes [5] (some 5)] :=
  (queue_is_list (fun _ => none) (by simp [Along, Fresh, listCall]) (by decide)).1

end Vespera.Klib
