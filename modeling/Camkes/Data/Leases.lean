import Mathlib.Logic.Function.Basic
import Mathlib.Tactic.Common

/-!
# Exclusive assignments

`Leases ι Ok` assigns to each holder in `ι` at most one resource with `Ok`, and no resource to two
holders.  A holder that is granted another resource gives up the one it had.
-/

namespace Camkes

/-- An assignment of resources with `Ok` to holders, each resource to one holder at most. -/
structure Leases (ι : Type*) {α : Type*} (Ok : α → Prop) where
  held : ι → Option α
  held_ok : ∀ i a, held i = some a → Ok a
  held_inj : ∀ i j a, held i = some a → held j = some a → i = j

namespace Leases

variable {ι α : Type*} {Ok : α → Prop}

/-- Nobody holds anything. -/
def none : Leases ι Ok where
  held _ := Option.none
  held_ok i a h := by cases h
  held_inj i j a h := by cases h

/-- Assign a resource that nobody holds. -/
def grant [DecidableEq ι] (l : Leases ι Ok) (i : ι) (a : α) (hok : Ok a)
    (hfree : ∀ j, l.held j ≠ some a) : Leases ι Ok where
  held := Function.update l.held i (some a)
  held_ok j b h := by
    rw [Function.update_apply] at h
    split_ifs at h
    · rw [← Option.some.inj h]
      exact hok
    · exact l.held_ok j b h
  held_inj j k b hj hk := by
    rw [Function.update_apply] at hj hk
    split_ifs at hj hk with hji hki hki
    · exact hji.trans hki.symm
    · rw [← hj] at hk
      exact absurd hk (hfree k)
    · rw [← hk] at hj
      exact absurd hj (hfree j)
    · exact l.held_inj j k b hj hk

theorem held_grant [DecidableEq ι] (l : Leases ι Ok) (i : ι) (a : α) (hok : Ok a)
    (hfree : ∀ j, l.held j ≠ some a) (j : ι) :
    (l.grant i a hok hfree).held j = if j = i then some a else l.held j :=
  Function.update_apply l.held i (some a) j

end Leases

end Camkes
