import Mathlib.Data.List.Basic
import Mathlib.Tactic.Common

/-!
# Reversing a list in place

The loop `for (i = 0; i < m; i++)` swaps the elements `i` and `last - i` of a list.
`getElem?_mirrorSwaps` says which element is at each index after it, and `mirrorSwaps_half` that the
list in front of the rest is reversed when `m` is half of its length.
-/

namespace Camkes

variable {α : Type*}

/-- Swap the elements at two indices. -/
def swapAt (l : List α) (i j : ℕ) : List α :=
  match l[i]?, l[j]? with
  | some x, some y => (l.set i y).set j x
  | _, _ => l

theorem swapAt_of_lt {l : List α} {i j : ℕ} (hi : i < l.length) (hj : j < l.length) :
    swapAt l i j = (l.set i l[j]).set j l[i] := by
  rw [swapAt, List.getElem?_eq_getElem hi, List.getElem?_eq_getElem hj]

@[simp] theorem length_swapAt (l : List α) (i j : ℕ) : (swapAt l i j).length = l.length := by
  unfold swapAt
  split
  · simp
  · rfl

/-- What is at a place after a swap. -/
theorem getElem?_swapAt {l : List α} {i j : ℕ} (hi : i < l.length) (hj : j < l.length) (k : ℕ) :
    (swapAt l i j)[k]? = if k = i then l[j]? else if k = j then l[i]? else l[k]? := by
  rw [swapAt_of_lt hi hj]
  simp only [List.getElem?_set, List.length_set, hi, hj, if_true, List.getElem?_eq_getElem]
  by_cases hki : k = i
  · subst hki
    by_cases hjk : j = k
    · subst hjk
      simp
    · simp [hjk]
  · by_cases hkj : k = j
    · subst hkj
      simp [hki]
    · simp [hki, hkj, Ne.symm hki, Ne.symm hkj]

/-- The loop that swaps the elements `i` and `last - i` for all `i < m`. -/
def mirrorSwaps (l : List α) (last m : ℕ) : List α :=
  (List.range m).foldl (fun l i => swapAt l i (last - i)) l

@[simp] theorem mirrorSwaps_zero (l : List α) (last : ℕ) : mirrorSwaps l last 0 = l := rfl

theorem mirrorSwaps_succ (l : List α) (last m : ℕ) :
    mirrorSwaps l last (m + 1) = swapAt (mirrorSwaps l last m) m (last - m) := by
  rw [mirrorSwaps, List.range_succ, List.foldl_append]
  rfl

@[simp] theorem length_mirrorSwaps (l : List α) (last m : ℕ) :
    (mirrorSwaps l last m).length = l.length := by
  induction m with
  | zero => rfl
  | succ m ih => rw [mirrorSwaps_succ, length_swapAt, ih]

/-- Where the element at index `k` comes from. -/
def mirror (last m k : ℕ) : ℕ := if k < m ∨ last - m < k ∧ k ≤ last then last - k else k

/-- **The loop**, as long as its indices do not meet. -/
theorem getElem?_mirrorSwaps {l : List α} {last m : ℕ} (hlast : last < l.length)
    (hm : 2 * m ≤ last + 1) (k : ℕ) : (mirrorSwaps l last m)[k]? = l[mirror last m k]? := by
  induction m generalizing k with
  | zero =>
    have hmirror : mirror last 0 k = k := by
      unfold mirror
      split_ifs
      · omega
      · rfl
    rw [mirrorSwaps_zero, hmirror]
  | succ m ih =>
    have hlen := length_mirrorSwaps l last m
    rw [mirrorSwaps_succ, getElem?_swapAt (by omega) (by omega), ih (by omega), ih (by omega),
      ih (by omega)]
    unfold mirror
    split_ifs
    all_goals first | rfl | (congr 1; omega)

/-- The loop does not look behind `last`. -/
theorem mirrorSwaps_append {l : List α} {last m : ℕ} (hlast : last < l.length)
    (hm : 2 * m ≤ last + 1) (rest : List α) :
    mirrorSwaps (l ++ rest) last m = mirrorSwaps l last m ++ rest := by
  ext1 k
  rw [getElem?_mirrorSwaps (by rw [List.length_append]; omega) hm]
  rcases Nat.lt_or_ge k l.length with hk | hk
  · have hmirror : mirror last m k < l.length := by
      unfold mirror
      split_ifs
      · omega
      · exact hk
    rw [List.getElem?_append_left hmirror,
      List.getElem?_append_left (by rwa [length_mirrorSwaps]), getElem?_mirrorSwaps hlast hm]
  · have hmirror : mirror last m k = k := by
      unfold mirror
      split_ifs
      · omega
      · rfl
    rw [hmirror, List.getElem?_append_right hk,
      List.getElem?_append_right (by rwa [length_mirrorSwaps]), length_mirrorSwaps]

theorem mem_of_mem_mirrorSwaps {l : List α} {last m : ℕ} (hlast : last < l.length)
    (hm : 2 * m ≤ last + 1) {x : α} (hx : x ∈ mirrorSwaps l last m) : x ∈ l := by
  obtain ⟨k, hk⟩ := List.mem_iff_getElem?.mp hx
  rw [getElem?_mirrorSwaps hlast hm] at hk
  exact List.mem_of_getElem? hk

/-- **Reversal**: the list is reversed when each element comes from the other end. -/
theorem mirrorSwaps_eq_reverse_iff {l : List α} {last m : ℕ} (hlast : last < l.length)
    (hm : 2 * m ≤ last + 1) :
    mirrorSwaps l last m = l.reverse ↔
      ∀ k < l.length, l[mirror last m k]? = l[l.length - 1 - k]? := by
  constructor
  · intro h k hk
    rw [← getElem?_mirrorSwaps hlast hm, h, List.getElem?_reverse hk]
  · intro h
    ext1 k
    rcases Nat.lt_or_ge k l.length with hk | hk
    · rw [getElem?_mirrorSwaps hlast hm, h k hk, List.getElem?_reverse hk]
    · rw [List.getElem?_eq_none (by rwa [length_mirrorSwaps]),
        List.getElem?_eq_none (by rwa [List.length_reverse])]

/-- Half as many swaps as there are elements reverse the list. -/
theorem mirrorSwaps_half (l rest : List α) :
    mirrorSwaps (l ++ rest) (l.length - 1) (l.length / 2) = l.reverse ++ rest := by
  rcases Nat.eq_zero_or_pos l.length with hzero | hpos
  · obtain rfl := List.length_eq_zero_iff.mp hzero
    simp
  · rw [mirrorSwaps_append (by omega) (by omega),
      (mirrorSwaps_eq_reverse_iff (by omega) (by omega)).mpr]
    intro k hk
    congr 1
    unfold mirror
    split_ifs
    · rfl
    · omega

end Camkes
