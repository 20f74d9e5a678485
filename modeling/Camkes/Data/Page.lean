import Mathlib.Data.Set.Basic
import Mathlib.Tactic.Common

/-!
# Pages of cells

A `Page` is an area that is filled with cells of the same size, row by row from the left; the `n`-th
cell (`Page.cell`) is in column `n % cols` and row `n / cols`.

* `cell_succ_of_lt`, `cell_succ_of_eq`: where the next cell is;
* `cell_subset`: the first `cols * rows` cells lie in the area;
* `eq_of_mem_cell`: different cells have no point in common.
-/

namespace Camkes

/-- An area of `cols` columns and `rows` rows of cells. -/
structure Page where
  left : ℕ
  top : ℕ
  width : ℕ
  height : ℕ
  cols : ℕ
  rows : ℕ
  cols_pos : 0 < cols

namespace Page

variable {p : Page} {n m : ℕ} {q : ℕ × ℕ}

/-! ### Cells -/

/-- The left edge of the cell. -/
def cellX (p : Page) (n : ℕ) : ℕ := p.left + p.width * (n % p.cols)

/-- The top edge of the cell. -/
def cellY (p : Page) (n : ℕ) : ℕ := p.top + p.height * (n / p.cols)

/-- The points of the cell. -/
def cell (p : Page) (n : ℕ) : Set (ℕ × ℕ) :=
  {q | p.cellX n ≤ q.1 ∧ q.1 < p.cellX n + p.width ∧
    p.cellY n ≤ q.2 ∧ q.2 < p.cellY n + p.height}

/-- The points of all cells. -/
def area (p : Page) : Set (ℕ × ℕ) :=
  {q | p.left ≤ q.1 ∧ q.1 < p.left + p.width * p.cols ∧
    p.top ≤ q.2 ∧ q.2 < p.top + p.height * p.rows}

/-! ### The next cell -/

/-- The next cell is to the right. -/
theorem cell_succ_of_lt (h : n % p.cols + 1 < p.cols) :
    p.cellX (n + 1) = p.cellX n + p.width ∧ p.cellY (n + 1) = p.cellY n := by
  have hmod : (n + 1) % p.cols = n % p.cols + 1 := by
    rw [Nat.add_mod, Nat.mod_eq_of_lt (show 1 < p.cols by omega), Nat.mod_eq_of_lt h]
  have hdiv : (n + 1) / p.cols = n / p.cols := by
    have hsplit := Nat.div_add_mod n p.cols
    apply Nat.div_eq_of_lt_le
    · rw [Nat.mul_comm]
      omega
    · rw [Nat.succ_mul, Nat.mul_comm]
      omega
  rw [cellX, cellX, cellY, cellY, hmod, hdiv, Nat.mul_succ, Nat.add_assoc]
  exact ⟨rfl, rfl⟩

/-- After the last cell of a row comes the first one of the next row. -/
theorem cell_succ_of_eq (h : n % p.cols + 1 = p.cols) :
    p.cellX (n + 1) = p.left ∧ p.cellY (n + 1) = p.cellY n + p.height := by
  have hsplit := Nat.div_add_mod n p.cols
  have hnext : n + 1 = p.cols * (n / p.cols + 1) := by
    rw [Nat.mul_succ]
    omega
  have hmod : (n + 1) % p.cols = 0 := by
    rw [hnext, Nat.mul_mod_right]
  have hdiv : (n + 1) / p.cols = n / p.cols + 1 := by
    rw [hnext, Nat.mul_div_cancel_left _ p.cols_pos]
  rw [cellX, cellY, cellY, hmod, hdiv, Nat.mul_succ, Nat.mul_zero, Nat.add_assoc]
  exact ⟨rfl, rfl⟩

/-! ### Cells and the area -/

theorem cellX_add_le (p : Page) (n : ℕ) : p.cellX n + p.width ≤ p.left + p.width * p.cols := by
  have hcol : n % p.cols + 1 ≤ p.cols := Nat.mod_lt n p.cols_pos
  have hright := Nat.mul_le_mul_left p.width hcol
  rw [Nat.mul_succ] at hright
  rw [cellX]
  omega

/-- **The cells of a page** lie in its area. -/
theorem cell_subset (h : n < p.cols * p.rows) : p.cell n ⊆ p.area := by
  rintro ⟨x, y⟩ ⟨hx, hx', hy, hy'⟩
  have hright := p.cellX_add_le n
  have hrow : n / p.cols + 1 ≤ p.rows := by
    rw [Nat.mul_comm] at h
    exact (Nat.div_lt_iff_lt_mul p.cols_pos).mpr h
  have hbottom := Nat.mul_le_mul_left p.height hrow
  rw [Nat.mul_succ] at hbottom
  simp only [cellX, cellY] at hx hx' hy hy' hright
  refine ⟨?_, ?_, ?_, ?_⟩ <;> omega

/-- Two stretches of the same length that start at multiples of it are the same if they meet. -/
theorem eq_of_stretch {w a b x o : ℕ} (ha : o + w * a ≤ x) (ha' : x < o + w * a + w)
    (hb : o + w * b ≤ x) (hb' : x < o + w * b + w) : a = b := by
  have hlt : ∀ {a b : ℕ}, w * a < w * b + w → a ≤ b := by
    intro a b h
    rw [← Nat.mul_succ] at h
    exact Nat.le_of_lt_succ (Nat.lt_of_mul_lt_mul_left h)
  exact Nat.le_antisymm (hlt (by omega)) (hlt (by omega))

/-- **Different cells** have no point in common. -/
theorem eq_of_mem_cell (hn : q ∈ p.cell n) (hm : q ∈ p.cell m) : n = m := by
  obtain ⟨hnx, hnx', hny, hny'⟩ := hn
  obtain ⟨hmx, hmx', hmy, hmy'⟩ := hm
  have hcol : n % p.cols = m % p.cols := eq_of_stretch hnx hnx' hmx hmx'
  have hrow : n / p.cols = m / p.cols := eq_of_stretch hny hny' hmy hmy'
  rw [← Nat.div_add_mod n p.cols, ← Nat.div_add_mod m p.cols, hcol, hrow]

end Page

end Camkes
