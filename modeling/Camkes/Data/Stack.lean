import Camkes.Data.CArray

/-!
# Stacks kept in an array

An array `a` of `n` slots with a number `num` of slots in use is a stack: `Stack.contents a num`
lists the slots in use, the top last.  `a[num++] = x` pushes (`contents_store`), and `a[--num]` pops
(`contents_succ`).
-/

namespace Camkes.Stack

open CArray

variable {α : Type*} {n : ℕ}

/-- The elements of the slots in use, the top last. -/
def contents (a : Vector α n) (num : ℕ) : List α := a.toList.take num

theorem length_contents (a : Vector α n) {num : ℕ} (h : num ≤ n) :
    (contents a num).length = num := by
  rw [contents, List.length_take, Vector.length_toList, Nat.min_eq_left h]

/-- The stack is its top on the rest. -/
theorem contents_succ (a : Vector α n) {num : ℕ} (h : num < n) :
    contents a (num + 1) = contents a num ++ [a[num]] := by
  have hlen : num < a.toList.length := by rwa [Vector.length_toList]
  rw [contents, List.take_succ_eq_append_getElem hlen, Vector.getElem_toList]
  rfl

/-- What lies below the slot that is stored to does not change. -/
theorem contents_set (a : Vector α n) {num : ℕ} (h : num < n) (x : α) :
    contents (a.set num x) num = contents a num := by
  rw [contents, contents, Vector.toList_set, List.take_set_of_le (Nat.le_refl _)]

/-- **Push**: there is room for another element below the end of the array. -/
theorem contents_store (a : Vector α n) {num : ℕ} (h : num < n) (x : α) :
    ∃ a', store a num x = some a' ∧ contents a' (num + 1) = contents a num ++ [x] := by
  refine ⟨a.set num x, store_of_lt a h x, ?_⟩
  rw [contents_succ _ h, contents_set a h, Vector.getElem_set_self]

/-- **Pop**: the slot below a number of slots in use that is not zero holds the top. -/
theorem getElem?_of_contents {a : Vector α n} {num : ℕ} {xs : List α} {x : α}
    (h : contents a (num + 1) = xs ++ [x]) (hle : num + 1 ≤ n) :
    a[num]? = some x ∧ contents a num = xs := by
  rw [contents_succ a hle] at h
  obtain ⟨hxs, hx⟩ := List.append_inj' h rfl
  exact ⟨by rw [Vector.getElem?_eq_getElem hle, (List.cons.inj hx).1], hxs⟩

end Camkes.Stack
