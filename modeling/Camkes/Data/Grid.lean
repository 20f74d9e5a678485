import Camkes.Data.CArray
import Camkes.Data.Loops
import Camkes.Data.Ring
import Mathlib.Algebra.Ring.Nat
import Mathlib.Order.Bounds.Basic

/-!
# Grids that are filled row by row

A grid of `w` columns and `h` rows is an array of `w * h` cells, where the cell in column `x` of
row `y` has the index `y * w + x`.

* `fill` stores one element in every cell;
* `next` is the place after a given one, row by row and around, and `next_position` says that its
  index is the next one modulo `w * h`;
* `IsLog blank log a` says that the array `a` of blanks has been written with the entries of `log`,
  one cell after the other and around, so that each cell has the last entry that came to it.
-/

namespace Camkes.Grid

variable {α : Type*} {w h x y : ℕ}

theorem index_lt (hx : x < w) (hy : y < h) : y * w + x < w * h := by
  calc y * w + x < y * w + w := by omega
    _ = (y + 1) * w := (Nat.succ_mul y w).symm
    _ ≤ h * w := Nat.mul_le_mul_right w hy
    _ = w * h := Nat.mul_comm h w

/-! ### Filling a grid -/

/-- Fill row `y`. -/
def fillRow (b : α) (w y : ℕ) (a : Vector α (w * h)) : Option (Vector α (w * h)) :=
  (List.range w).foldlM (fun a x => CArray.store a (y * w + x) b) a

/-- Fill the grid, row by row. -/
def fill (b : α) (w h : ℕ) (a : Vector α (w * h)) : Option (Vector α (w * h)) :=
  (List.range h).foldlM (fun a y => fillRow b w y a) a

/-- The cells below `i` have been filled. -/
def FilledTo (b : α) (i : ℕ) (a : Vector α (w * h)) : Prop :=
  ∀ k : Fin (w * h), k < i → a.get k = b

/-- One more cell. -/
theorem FilledTo.put {b : α} {a : Vector α (w * h)} {i : Fin (w * h)} (ha : FilledTo b i a) :
    FilledTo b (i + 1) (CArray.put a i b) := by
  intro k hk
  rw [CArray.get_put]
  split_ifs with hik
  · rfl
  · exact ha k (by omega)

/-- One more row. -/
theorem exists_fillRow {b : α} {a : Vector α (w * h)} (hy : y < h) (ha : FilledTo b (y * w) a) :
    ∃ a', fillRow b w y a = some a' ∧ FilledTo b ((y + 1) * w) a' := by
  have hrow := exists_foldlM (l := List.range w) (s := a)
    (f := fun a x => CArray.store a (y * w + x) b)
    (P := fun done a => FilledTo b (y * w + done.length) a) ha ?_
  · rw [List.length_range, ← Nat.succ_mul] at hrow
    exact hrow
  · intro done x rest a hrange ha
    obtain ⟨rfl, hx⟩ := eq_length_of_range hrange
    refine ⟨_, CArray.store_fin a ⟨y * w + done.length, index_lt hx hy⟩ b, ?_⟩
    rw [List.length_append, List.length_singleton]
    exact FilledTo.put (i := ⟨y * w + done.length, index_lt hx hy⟩) ha

/-- **Filling** succeeds, whatever the cells had. -/
theorem fill_eq (b : α) (a : Vector α (w * h)) :
    fill b w h a = some (Vector.replicate (w * h) b) := by
  obtain ⟨a', hfill, ha'⟩ := exists_foldlM (l := List.range h) (s := a)
    (f := fun a y => fillRow b w y a) (P := fun done a => FilledTo b (done.length * w) a)
    (fun k hk => by simp at hk) (fun done y rest a hrange ha => by
      obtain ⟨rfl, hy⟩ := eq_length_of_range hrange
      rw [List.length_append, List.length_singleton]
      exact exists_fillRow hy ha)
  rw [fill, hfill]
  congr 1
  ext k hk
  rw [List.length_range, Nat.mul_comm] at ha'
  rw [Vector.getElem_replicate]
  exact ha' ⟨k, hk⟩ hk

/-! ### The next place -/

/-- The row and the column after a given place. -/
def next (w h row column : ℕ) : ℕ × ℕ :=
  if column + 1 = w then (if row + 1 = h then 0 else row + 1, 0) else (row, column + 1)

variable {row column p : ℕ}

theorem next_lt (hcol : column < w) (hrow : row < h) :
    (next w h row column).1 < h ∧ (next w h row column).2 < w := by
  unfold next
  split_ifs <;> omega

/-- The index of the next place. -/
theorem next_position (hcol : column < w) (hrow : row < h)
    (hp : row * w + column = p % (w * h)) :
    (next w h row column).1 * w + (next w h row column).2 = (p + 1) % (w * h) := by
  have hlt := index_lt hcol hrow
  have hsucc : (p + 1) % (w * h) =
      if row * w + column + 1 = w * h then 0 else row * w + column + 1 := by
    rw [← Nat.mod_add_mod, ← hp, Ring.succ_mod hlt]
  rw [hsucc, next]
  by_cases hend : column + 1 = w
  · have hcarry : row * w + column + 1 = (row + 1) * w := by
      rw [Nat.succ_mul]
      omega
    rw [if_pos hend, hcarry]
    by_cases hlast : row + 1 = h
    · rw [if_pos hlast, hlast, if_pos (Nat.mul_comm h w)]
      exact Nat.zero_mul w
    · have hne : (row + 1) * w ≠ w * h := by
        rw [Nat.mul_comm w h]
        intro heq
        exact hlast (Nat.eq_of_mul_eq_mul_right (by omega) heq)
      rw [if_neg hlast, if_neg hne, Nat.add_zero]
  · have hne : row * w + column + 1 ≠ w * h := by
      have hlt' : row * w + (column + 1) < w * h := index_lt (by omega) hrow
      omega
    rw [if_neg hend, if_neg hne, Nat.add_assoc]

/-! ### Logs that go around -/

section Log

variable {n : ℕ} {blank : α} {log : List α} {a : Vector α n}

/-- Each cell has the last of the entries that came to it, or is blank. -/
def IsLog (blank : α) (log : List α) (a : Vector α n) : Prop :=
  ∀ k : Fin n,
    (∃ j, IsGreatest {j | j < log.length ∧ j % n = k} j ∧ log[j]? = some (a.get k)) ∨
      ((∀ j < log.length, j % n ≠ k) ∧ a.get k = blank)

theorem isLog_nil (blank : α) : IsLog blank [] (Vector.replicate n blank) :=
  fun k => .inr ⟨fun _ hj => absurd hj (Nat.not_lt_zero _), CArray.get_replicate blank k⟩

/-- The next entry goes to the next cell. -/
theorem IsLog.put (ha : IsLog blank log a) {i : Fin n} (hi : i = log.length % n) (b : α) :
    IsLog blank (log ++ [b]) (CArray.put a i b) := by
  intro k
  rw [CArray.get_put, List.length_append, List.length_singleton]
  split_ifs with hik
  · subst hik
    refine .inl ⟨log.length, ⟨⟨Nat.lt_succ_self _, hi.symm⟩, ?_⟩, List.getElem?_concat_length⟩
    exact fun j hj => Nat.le_of_lt_succ hj.1
  · -- the new entry did not come to this cell
    have hiff : ∀ j, j < log.length + 1 ∧ j % n = k ↔ j < log.length ∧ j % n = k := by
      intro j
      refine and_congr_left fun hj => ⟨fun hlt => ?_, fun hlt => by omega⟩
      have hne : j ≠ log.length := by
        rintro rfl
        exact hik (Fin.ext (hi.trans hj))
      omega
    rcases ha k with ⟨j, hgreatest, hget⟩ | ⟨hnone, hblank⟩
    · refine .inl ⟨j, ?_, ?_⟩
      · simp only [hiff]
        exact hgreatest
      · rw [List.getElem?_append_left hgreatest.1.1, hget]
    · refine .inr ⟨fun j hj hjk => ?_, hblank⟩
      exact hnone j ((hiff j).mp ⟨hj, hjk⟩).1 hjk

end Log

end Camkes.Grid
