import Mathlib.Data.List.Basic
import Mathlib.Tactic.Common

/-!
# Bounded FIFO queues that drop what does not fit

A `BoundedFifo α cap` is a queue of at most `cap` waiting elements together with its history: the
elements it has `accepted` and the elements that were `taken` from it, both in order.  Its two laws
are fields, so every value of the type satisfies them: what was taken, followed by what waits, is
exactly what was accepted, and no more than `cap` elements wait.

`offer` accepts an element unless `cap` elements wait; `take` removes the oldest one.
-/

namespace Camkes

variable {α β : Type*} {cap : ℕ}

/-- A queue of at most `cap` elements, with the history of what went in and what came out. -/
structure BoundedFifo (α : Type*) (cap : ℕ) where
  -- The waiting elements, oldest first.
  queue : List α
  -- All elements accepted so far, in order.
  accepted : List α
  -- All elements taken so far, in order.
  taken : List α
  -- Nothing is lost, duplicated or reordered.
  taken_append_queue : taken ++ queue = accepted
  -- The capacity is respected.
  length_queue_le : queue.length ≤ cap

namespace BoundedFifo

/-! ### Operations -/

/-- The queue before any operation. -/
def empty : BoundedFifo α cap where
  queue := []
  accepted := []
  taken := []
  taken_append_queue := rfl
  length_queue_le := Nat.zero_le _

/-- Offer an element: it is dropped when `cap` elements wait. -/
def offer (q : BoundedFifo α cap) (x : α) : BoundedFifo α cap :=
  if h : q.queue.length < cap then
    { queue := q.queue ++ [x]
      accepted := q.accepted ++ [x]
      taken := q.taken
      taken_append_queue := by rw [← List.append_assoc, q.taken_append_queue]
      length_queue_le := by rw [List.length_append, List.length_singleton]; omega }
  else q

/-- Take the oldest element, if there is one. -/
def take (q : BoundedFifo α cap) : BoundedFifo α cap where
  queue := q.queue.tail
  accepted := q.accepted
  taken := q.taken ++ q.queue.head?.toList
  taken_append_queue := by
    rw [← q.taken_append_queue, List.append_assoc]
    cases q.queue <;> rfl
  length_queue_le := by
    rw [List.length_tail]
    exact Nat.le_trans (Nat.sub_le _ _) q.length_queue_le

/-! ### What the operations do to the queue and to its history -/

/-- The waiting elements after an offer. -/
def offerQueue (cap : ℕ) (q : List α) (x : α) : List α :=
  if q.length < cap then q ++ [x] else q

theorem offerQueue_of_lt {q : List α} (h : q.length < cap) (x : α) :
    offerQueue cap q x = q ++ [x] :=
  if_pos h

theorem offerQueue_of_le {q : List α} (h : cap ≤ q.length) (x : α) : offerQueue cap q x = q :=
  if_neg (Nat.not_lt.mpr h)

theorem queue_offer (q : BoundedFifo α cap) (x : α) :
    (q.offer x).queue = offerQueue cap q.queue x := by
  unfold offer offerQueue
  split_ifs <;> rfl

@[simp] theorem taken_offer (q : BoundedFifo α cap) (x : α) : (q.offer x).taken = q.taken := by
  unfold offer
  split_ifs <;> rfl

@[simp] theorem queue_take (q : BoundedFifo α cap) : q.take.queue = q.queue.tail := rfl

@[simp] theorem taken_take (q : BoundedFifo α cap) :
    q.take.taken = q.taken ++ q.queue.head?.toList := rfl

/-- What was taken is a prefix of what was accepted. -/
theorem taken_prefix_accepted (q : BoundedFifo α cap) : q.taken <+: q.accepted :=
  ⟨q.queue, q.taken_append_queue⟩

end BoundedFifo

end Camkes
