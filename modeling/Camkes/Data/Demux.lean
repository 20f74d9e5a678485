import Mathlib.Data.List.Basic
import Mathlib.Tactic.Common

/-!
# Streams that select where they go

A `Demux` reads a stream in a mode.  An item of the stream is data for one destination, or a control
item; control items alone change the mode.  `D.routed d m xs` lists the data for the destination `d`
in the stream `xs` read from mode `m`, and `D.visible d m xs` is what is left of the stream when the
data for all other destinations is dropped.

`routed_visible`: what is dropped does not matter to `d`.  Two streams that look the same to `d`
bring it the same data (`routed_congr`).
-/

namespace Camkes

variable {α μ δ : Type*}

/-- A stream reader with modes `μ` and destinations `δ`. -/
structure Demux (α μ δ : Type*) where
  -- the destination of a data item, none for a control item
  dest : μ → α → Option δ
  next : μ → α → μ
  next_of_dest : ∀ {m x d}, dest m x = some d → next m x = m

namespace Demux

variable [DecidableEq δ] {d : δ} {m : μ}

/-- The data for destination `d`. -/
def routed (D : Demux α μ δ) (d : δ) (m : μ) : List α → List α
  | [] => []
  | x :: xs =>
    if D.dest m x = some d then x :: D.routed d (D.next m x) xs else D.routed d (D.next m x) xs

/-- The stream without the data for other destinations. -/
def visible (D : Demux α μ δ) (d : δ) (m : μ) : List α → List α
  | [] => []
  | x :: xs =>
    if D.dest m x = none ∨ D.dest m x = some d then x :: D.visible d (D.next m x) xs
    else D.visible d (D.next m x) xs

variable (D : Demux α μ δ)

@[simp] theorem routed_nil : D.routed d m [] = [] := rfl

theorem routed_cons_of_dest {x : α} (h : D.dest m x = some d) (xs : List α) :
    D.routed d m (x :: xs) = x :: D.routed d m xs := by
  rw [routed, if_pos h, D.next_of_dest h]

theorem routed_cons_of_ne {x : α} (h : D.dest m x ≠ some d) (xs : List α) :
    D.routed d m (x :: xs) = D.routed d (D.next m x) xs := by
  rw [routed, if_neg h]

/-- Dropping the data for others changes nothing for `d`. -/
theorem routed_visible (xs : List α) : D.routed d m (D.visible d m xs) = D.routed d m xs := by
  induction xs generalizing m with
  | nil => rfl
  | cons x xs ih =>
    rcases hdest : D.dest m x with - | e
    · -- a control item stays where it is
      have hne : D.dest m x ≠ some d := by
        rw [hdest]
        exact nofun
      rw [visible, if_pos (Or.inl hdest), routed_cons_of_ne D hne, routed_cons_of_ne D hne, ih]
    · have hnext := D.next_of_dest hdest
      by_cases he : e = d
      · subst he
        rw [visible, if_pos (Or.inr hdest), hnext, routed_cons_of_dest D hdest,
          routed_cons_of_dest D hdest, ih]
      · -- data for another destination leaves the mode alone
        have hne : D.dest m x ≠ some d := by
          rw [hdest]
          exact fun h => he (Option.some.inj h)
        have hdrop : ¬ (D.dest m x = none ∨ D.dest m x = some d) := by
          rintro (h | h)
          · rw [hdest] at h
            cases h
          · exact hne h
        rw [visible, if_neg hdrop, routed_cons_of_ne D hne, hnext, ih]

/-- What can be seen of a stream and more behind it. -/
theorem visible_append (xs ys : List α) :
    D.visible d m (xs ++ ys) = D.visible d m xs ++ D.visible d (xs.foldl D.next m) ys := by
  induction xs generalizing m with
  | nil => rfl
  | cons x xs ih =>
    rw [List.cons_append, visible, ih, visible, List.foldl_cons]
    split_ifs
    · rw [List.cons_append]
    · rfl

theorem routed_congr {xs ys : List α} (h : D.visible d m xs = D.visible d m ys) :
    D.routed d m xs = D.routed d m ys := by
  rw [← D.routed_visible xs, h, D.routed_visible ys]

/-- What is routed was in the stream. -/
theorem mem_of_mem_routed {x : α} {xs : List α} (h : x ∈ D.routed d m xs) : x ∈ xs := by
  induction xs generalizing m with
  | nil => exact h
  | cons y xs ih =>
    rw [routed] at h
    split_ifs at h
    · rcases List.mem_cons.mp h with rfl | h
      · exact List.mem_cons_self ..
      · exact List.mem_cons_of_mem _ (ih h)
    · exact List.mem_cons_of_mem _ (ih h)

end Demux

end Camkes
