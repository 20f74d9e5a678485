import Mathlib.Data.Nat.Notation
import Mathlib.Tactic.Common

/-!
# Critical sections

`Guards owner inside` says that a mutex with this owner guards the critical sections: the thread `t`
is inside its critical section exactly if it holds the mutex.  So at most one thread is inside at a
time (`Guards.eq_of_inside`).  It is preserved as long as a thread locks the mutex, when it is free,
on its way in, and unlocks it on its way out (`Guards.move`).
-/

namespace Camkes.Locking

variable {τ : Type*} {owner owner' : Option τ} {inside inside' : τ → Bool} {t u : τ}

/-- Exactly the owner of the lock is inside. -/
def Guards (owner : Option τ) (inside : τ → Bool) : Prop := ∀ t, owner = some t ↔ inside t = true

/-- What a step of the thread `t` does to the mutex. -/
inductive Move (t : τ) (owner owner' : Option τ) (inside inside' : τ → Bool) : Prop
  | keep (howner : owner' = owner) (hinside : inside' t = inside t)
  | lock (free : owner = none) (howner : owner' = some t) (hinside : inside' t = true)
  | unlock (hold : inside t = true) (howner : owner' = none) (hinside : inside' t = false)

namespace Guards

/-- **Mutual exclusion** -/
theorem eq_of_inside (h : Guards owner inside) (ht : inside t = true) (hu : inside u = true) :
    t = u := by
  have howner := (h t).mpr ht
  rw [(h u).mpr hu] at howner
  exact (Option.some.inj howner).symm

theorem inside_eq_false (h : Guards owner inside) (howner : owner = none) (t : τ) :
    inside t = false := by
  rw [Bool.eq_false_iff]
  intro ht
  rw [(h t).mpr ht] at howner
  cases howner

/-- A step of one thread. -/
theorem move (h : Guards owner inside) (hothers : ∀ u ≠ t, inside' u = inside u)
    (hmove : Move t owner owner' inside inside') : Guards owner' inside' := by
  intro u
  by_cases hu : u = t
  · subst hu
    cases hmove with
    | keep howner hinside =>
      rw [howner, hinside]
      exact h u
    | lock free howner hinside => exact iff_of_true howner hinside
    | unlock hold howner hinside =>
      rw [howner, hinside]
      exact iff_of_false (fun h => by cases h) Bool.false_ne_true
  · rw [hothers u hu]
    cases hmove with
    | keep howner hinside =>
      rw [howner]
      exact h u
    | lock free howner hinside =>
      rw [howner, h.inside_eq_false free u]
      exact iff_of_false (fun h => hu (Option.some.inj h).symm) Bool.false_ne_true
    | unlock hold howner hinside =>
      rw [howner]
      refine iff_of_false (fun h => by cases h) fun hinside => hu ?_
      exact h.eq_of_inside hinside hold

end Guards

end Camkes.Locking
