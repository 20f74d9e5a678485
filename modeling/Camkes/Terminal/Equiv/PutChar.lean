import Camkes.Terminal.Manager
import Mathlib.Tactic.Common

/-!
# Which positions a client may write to

`put_char` should accept exactly the positions of the caller's region that lie in the terminal
(`Allowed`).  Its test of the row adds the height of the region where it should add its `Y`, so it
errs where one of the two sums is below `TERMINAL_HEIGHT` and the other is not (`Misjudged`).
-/

namespace Camkes.Terminal

variable {W H : ℤ} {r : Region} {border : Bool} {x y : ℤ} {data : UInt8}

/-! ### Tests -/

/-- The call should be accepted. -/
@[mk_iff]
structure Allowed (W H : ℤ) (r : Region) (x y : ℤ) (data : UInt8) : Prop where
  not_esc : data ≠ esc
  x_nonneg : 0 ≤ x
  x_lt : x < r.width
  y_nonneg : 0 ≤ y
  y_lt : y < r.height
  column_lt : r.x + x < W
  row_lt : r.y + y < H

/-- The call is accepted. -/
def Accepted (W H : ℤ) (r : Region) (x y : ℤ) (data : UInt8) : Prop :=
  data ≠ esc ∧ ¬ (x < 0 ∨ y < 0 ∨ x ≥ r.width ∨ y ≥ r.height ∨ x + r.x ≥ W ∨ y + r.height ≥ H)

/-- One of the sums `y + Y` and `y + HEIGHT` is below `TERMINAL_HEIGHT` and the other is not, and
nothing else speaks against the call. -/
def Misjudged (W H : ℤ) (r : Region) (x y : ℤ) (data : UInt8) : Prop :=
  data ≠ esc ∧ 0 ≤ x ∧ x < r.width ∧ 0 ≤ y ∧ y < r.height ∧ r.x + x < W ∧
    y + min r.y r.height < H ∧ H ≤ y + max r.y r.height

/-- A call is judged rightly unless it is one of the misjudged ones. -/
theorem accepted_iff_allowed_iff :
    (Accepted W H r x y data ↔ Allowed W H r x y data) ↔ ¬ Misjudged W H r x y data := by
  rw [allowed_iff, Accepted, Misjudged]
  by_cases hesc : data = esc
  · simp only [hesc, ne_eq, not_true_eq_false, false_and, not_false_eq_true]
  · simp only [hesc, ne_eq, not_false_eq_true, true_and]
    omega

/-! ### Calls -/

/-- What a call prints before the character. -/
def drawn (W H : ℤ) (r : Region) (border : Bool) : List Printf :=
  if border then [] else borderise W H r

theorem putChar_of_accepted (h : Accepted W H r x y data) :
    putChar W H r border x y data = (true, drawn W H r border ++
      [.colour r.colour, .writeChar (r.x + x) (r.y + y) data, .reset], 0) := by
  rw [putChar, if_neg h.1, if_neg h.2]
  rfl

/-- What a rejected call prints. -/
theorem putChar_of_not_accepted (h : ¬ Accepted W H r x y data) :
    putChar W H r border x y data = (true, drawn W H r border, -1) := by
  rw [putChar]
  by_cases hesc : data = esc
  · rw [if_pos hesc]
    rfl
  · rw [if_neg hesc, if_pos (not_not.mp fun hbounds => h ⟨hesc, hbounds⟩)]
    rfl

/-- A call is answered with 0 exactly when it should be accepted.  Then only its own position is
written, inside the terminal and the region, and otherwise none. -/
def RightAnswer (W H : ℤ) (r : Region) (border : Bool) (x y : ℤ) (data : UInt8)
    (result : Bool × List Printf × ℤ) : Prop :=
  (result.2.2 = 0 ↔ Allowed W H r x y data) ∧
    ∃ rest, result.2.1 = drawn W H r border ++ rest ∧
      (result.2.2 = 0 → writes rest = [(r.x + x, r.y + y, data)] ∧
        InTerminal W H (r.x + x) (r.y + y) ∧ r.contains (r.x + x) (r.y + y)) ∧
      (result.2.2 ≠ 0 → writes rest = [])

/-- An allowed position lies in the terminal and in the region. -/
theorem Allowed.inside (h : Allowed W H r x y data) (hx : 0 ≤ r.x) (hy : 0 ≤ r.y) :
    InTerminal W H (r.x + x) (r.y + y) ∧ r.contains (r.x + x) (r.y + y) := by
  obtain ⟨-, hx₀, hx₁, hy₀, hy₁, hcolumn, hrow⟩ := h
  unfold InTerminal Region.contains
  omega

/-- A call answers rightly unless it is one of the misjudged ones. -/
theorem rightAnswer_putChar_iff (hx : 0 ≤ r.x) (hy : 0 ≤ r.y) :
    RightAnswer W H r border x y data (putChar W H r border x y data) ↔
      ¬ Misjudged W H r x y data := by
  rw [← accepted_iff_allowed_iff]
  by_cases haccepted : Accepted W H r x y data
  · rw [putChar_of_accepted haccepted, iff_true_left haccepted]
    constructor
    · rintro ⟨hret, -⟩
      exact hret.mp rfl
    · intro hallowed
      refine ⟨iff_of_true rfl hallowed, _, rfl, fun _ => ⟨rfl, hallowed.inside hx hy⟩, ?_⟩
      exact fun hret => absurd rfl hret
  · rw [putChar_of_not_accepted haccepted, iff_false_left haccepted]
    have hret : (-1 : ℤ) ≠ 0 := by decide
    constructor
    · rintro ⟨hiff, -⟩ hallowed
      exact hret (hiff.mpr hallowed)
    · intro hnot
      exact ⟨iff_of_false hret hnot, [], (List.append_nil _).symm, fun h => absurd h hret,
        fun _ => rfl⟩

/-- **The bounds of `put_char`**: on any terminal, a call of a client is answered rightly exactly
when the test of the row is not mistaken. -/
theorem rightAnswer_iff_not_misjudged (d : Domain) (W H : ℤ) (border : Bool) (x y : ℤ)
    (data : UInt8) :
    RightAnswer W H d.region border x y data (d.putChar W H border x y data) ↔
      ¬ Misjudged W H d.region x y data := by
  cases d with
  | domain1 => exact rightAnswer_putChar_iff (by decide) (by decide)
  | domain2 => exact rightAnswer_putChar_iff (by decide) (by decide)

/-- On a terminal of 80 columns and 24 rows the second client may write below the last row. -/
theorem not_rightAnswer_below :
    Domain.domain2.putChar 80 24 true 0 5 97 =
      (true, [.colour .yellow, .writeChar 20 25 97, .reset], 0) ∧
    ¬ InTerminal 80 24 20 25 ∧
    ¬ RightAnswer 80 24 Domain.domain2.region true 0 5 97
      (Domain.domain2.putChar 80 24 true 0 5 97) := by
  refine ⟨by decide, by decide, ?_⟩
  rintro ⟨hret, -⟩
  have hrow := (hret.mp (by decide)).row_lt
  revert hrow
  decide

end Camkes.Terminal
