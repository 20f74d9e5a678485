import Camkes.Terminal.Manager
import Mathlib.Data.List.Nodup

/-!
# Which positions a border is drawn at

`borderise` goes through the cells of the frame around a region (`frameCells`), each once, and
leaves out those that its tests take to be outside of the terminal.  They let column
`TERMINAL_WIDTH` and row `TERMINAL_HEIGHT` pass, the first ones beyond it (`JustBeyond`).
-/

namespace Camkes.Terminal

variable {W H : ℤ} {r : Region} {i j : ℤ} {c : UInt8}

/-! ### The frame -/

/-- The kinds of cells of the frame. -/
def Region.Corner (r : Region) (i j : ℤ) : Prop :=
  (i = r.x - 1 ∨ i = r.x + r.width) ∧ (j = r.y - 1 ∨ j = r.y + r.height)

/-- Above or below the region. -/
def Region.Horizontal (r : Region) (i j : ℤ) : Prop :=
  r.x ≤ i ∧ i < r.x + r.width ∧ (j = r.y - 1 ∨ j = r.y + r.height)

/-- To the left or to the right of the region. -/
def Region.Vertical (r : Region) (i j : ℤ) : Prop :=
  (i = r.x - 1 ∨ i = r.x + r.width) ∧ r.y ≤ j ∧ j < r.y + r.height

instance (r : Region) (i j : ℤ) : Decidable (r.Corner i j) := inferInstanceAs (Decidable (_ ∧ _))

instance (r : Region) (i j : ℤ) : Decidable (r.Horizontal i j) :=
  inferInstanceAs (Decidable (_ ∧ _ ∧ _))

instance (r : Region) (i j : ℤ) : Decidable (r.Vertical i j) :=
  inferInstanceAs (Decidable (_ ∧ _ ∧ _))

/-- The character of the frame around a region at a position. -/
def frameChar (r : Region) (i j : ℤ) : Option UInt8 :=
  if r.Corner i j then some 43
  else if r.Horizontal i j then some 45
  else if r.Vertical i j then some 124
  else none

/-- The cells above or below the region. -/
def horizontal (r : Region) (j : ℤ) : List (ℤ × ℤ × UInt8) :=
  (List.range r.width).map fun k : ℕ => (r.x + k, j, 45)

/-- The cells to the left or to the right of the region. -/
def vertical (r : Region) (i : ℤ) : List (ℤ × ℤ × UInt8) :=
  (List.range r.height).map fun k : ℕ => (i, r.y + k, 124)

/-- The corners of the frame. -/
def corners (r : Region) : List (ℤ × ℤ × UInt8) :=
  [(r.x - 1, r.y - 1, 43), (r.x + r.width, r.y - 1, 43), (r.x - 1, r.y + r.height, 43),
    (r.x + r.width, r.y + r.height, 43)]

/-- The frame, in the order in which it is drawn. -/
def frameCells (r : Region) : List (ℤ × ℤ × UInt8) :=
  corners r ++ horizontal r (r.y - 1) ++ vertical r (r.x - 1) ++ horizontal r (r.y + r.height) ++
    vertical r (r.x + r.width)

/-- The cells of a horizontal side. -/
theorem mem_horizontal {b : ℤ} :
    (i, j, c) ∈ horizontal r b ↔ r.x ≤ i ∧ i < r.x + r.width ∧ j = b ∧ c = 45 := by
  simp only [horizontal, List.mem_map, List.mem_range, Prod.mk.injEq]
  constructor
  · rintro ⟨k, hk, rfl, rfl, rfl⟩
    exact ⟨by omega, by omega, rfl, rfl⟩
  · rintro ⟨hleft, hright, rfl, rfl⟩
    exact ⟨(i - r.x).toNat, by omega, by omega, rfl, rfl⟩

/-- The cells of a vertical side. -/
theorem mem_vertical {a : ℤ} :
    (i, j, c) ∈ vertical r a ↔ i = a ∧ r.y ≤ j ∧ j < r.y + r.height ∧ c = 124 := by
  simp only [vertical, List.mem_map, List.mem_range, Prod.mk.injEq]
  constructor
  · rintro ⟨k, hk, rfl, rfl, rfl⟩
    exact ⟨rfl, by omega, by omega, rfl⟩
  · rintro ⟨rfl, htop, hbottom, rfl⟩
    exact ⟨(j - r.y).toNat, by omega, rfl, by omega, rfl⟩

theorem mem_corners : (i, j, c) ∈ corners r ↔
    (i = r.x - 1 ∨ i = r.x + r.width) ∧ (j = r.y - 1 ∨ j = r.y + r.height) ∧ c = 43 := by
  simp only [corners, List.mem_cons, Prod.mk.injEq, List.not_mem_nil, or_false]
  tauto

/-- No cell is of two kinds. -/
theorem frameChar_eq_some_iff : frameChar r i j = some c ↔
    (r.Corner i j ∧ c = 43) ∨ (r.Horizontal i j ∧ c = 45) ∨ (r.Vertical i j ∧ c = 124) := by
  have hhorizontal : r.Horizontal i j → ¬ r.Corner i j := by
    unfold Region.Horizontal Region.Corner
    omega
  have hvertical : r.Vertical i j → ¬ r.Corner i j ∧ ¬ r.Horizontal i j := by
    unfold Region.Vertical Region.Horizontal Region.Corner
    omega
  rw [frameChar, eq_comm]
  split_ifs with hc hh hv
  · have hnot : ¬ r.Horizontal i j ∧ ¬ r.Vertical i j :=
      ⟨fun h => hhorizontal h hc, fun h => (hvertical h).1 hc⟩
    simp [hc, hnot]
  · have hnot : ¬ r.Vertical i j := fun h => (hvertical h).2 hh
    simp [hc, hh, hnot]
  · simp [hc, hh, hv]
  · simp [hc, hh, hv]

theorem mem_frameCells : (i, j, c) ∈ frameCells r ↔ frameChar r i j = some c := by
  simp only [frameCells, List.mem_append, mem_corners, mem_horizontal, mem_vertical,
    frameChar_eq_some_iff, Region.Corner, Region.Horizontal, Region.Vertical]
  grind

theorem nodup_horizontal (r : Region) (j : ℤ) : (horizontal r j).Nodup := by
  refine List.nodup_range.map fun k l hkl => ?_
  have hx : r.x + (k : ℤ) = r.x + l := congrArg Prod.fst hkl
  omega

theorem nodup_vertical (r : Region) (i : ℤ) : (vertical r i).Nodup := by
  refine List.nodup_range.map fun k l hkl => ?_
  have hy : r.y + (k : ℤ) = r.y + l := congrArg (fun p => p.2.1) hkl
  omega

theorem nodup_corners (r : Region) : (corners r).Nodup := by
  simp [corners]
  omega

/-- No cell of a frame is written twice. -/
theorem nodup_frameCells (r : Region) : (frameCells r).Nodup := by
  refine ((((nodup_corners r).append (nodup_horizontal r _) ?_).append (nodup_vertical r _)
    ?_).append (nodup_horizontal r _) ?_).append (nodup_vertical r _) ?_
  all_goals
    rintro ⟨i, j, c⟩ h h'
    simp only [List.mem_append, mem_corners, mem_horizontal, mem_vertical] at h h'
    grind

/-- The positions of the frame are different. -/
theorem nodup_positions (r : Region) : ((frameCells r).map fun p => (p.1, p.2.1)).Nodup := by
  refine (List.nodup_map_iff_inj_on (nodup_frameCells r)).mpr ?_
  rintro ⟨i, j, c⟩ h ⟨i', j', c'⟩ h' heq
  obtain ⟨rfl, rfl⟩ := Prod.mk.inj heq
  have hc := mem_frameCells.mp h
  rw [mem_frameCells.mp h'] at hc
  rw [Option.some.inj hc]

/-! ### What is drawn -/

/-- The test of `borderise`. -/
def passes (W H : ℤ) (p : ℤ × ℤ × UInt8) : Bool := 0 ≤ p.1 ∧ 0 ≤ p.2.1 ∧ p.1 ≤ W ∧ p.2.1 ≤ H

theorem writes_append (ps qs : List Printf) : writes (ps ++ qs) = writes ps ++ writes qs :=
  List.filterMap_append ..

/-- A character of a border is written if it passes the check. -/
theorem writes_borderChar (W H i j : ℤ) (c : UInt8) :
    writes (borderChar W H i j c) = [(i, j, c)].filter (passes W H) := by
  rw [borderChar]
  split_ifs with h
  · rw [List.filter_cons_of_pos (by simpa [passes] using h)]
    rfl
  · rw [List.filter_cons_of_neg (by simpa [passes] using h)]
    rfl

/-- A loop writes the cells that it goes through and that pass the test. -/
theorem writes_flatMap (n : ℕ) (g : ℕ → ℤ × ℤ × UInt8) :
    writes ((List.range n).flatMap fun k => borderChar W H (g k).1 (g k).2.1 (g k).2.2) =
      ((List.range n).map g).filter (passes W H) := by
  rw [List.map_eq_flatMap, List.filter_flatMap, writes, List.filterMap_flatMap]
  congr 1
  funext k
  exact writes_borderChar W H (g k).1 (g k).2.1 (g k).2.2

/-- The cells of the frame that pass the test are written. -/
theorem writes_borderise (W H : ℤ) (r : Region) :
    writes (borderise W H r) = (frameCells r).filter (passes W H) := by
  have hhorizontal : ∀ j, writes ((List.range r.width).flatMap fun k : ℕ =>
      borderChar W H (r.x + k) j 45) = (horizontal r j).filter (passes W H) :=
    fun j => writes_flatMap r.width fun k : ℕ => (r.x + k, j, 45)
  have hvertical : ∀ i, writes ((List.range r.height).flatMap fun k : ℕ =>
      borderChar W H i (r.y + k) 124) = (vertical r i).filter (passes W H) :=
    fun i => writes_flatMap r.height fun k : ℕ => (i, r.y + k, 124)
  have hchars : writes (borderise W H r) = writes (borderChars W H r) := by
    rw [borderise, writes_append]
    exact List.append_nil _
  rw [hchars, borderChars]
  simp only [writes_append, hhorizontal, hvertical, writes_borderChar, ← List.filter_append]
  rfl

/-- The border: each cell of the frame that lies in the terminal is written once, with its
character, and nothing else is. -/
structure RightBorder (W H : ℤ) (r : Region) (printed : List Printf) : Prop where
  nodup : ((writes printed).map fun p => (p.1, p.2.1)).Nodup
  mem_iff : ∀ i j c, (i, j, c) ∈ writes printed ↔ InTerminal W H i j ∧ frameChar r i j = some c

/-- A position in column `TERMINAL_WIDTH` or row `TERMINAL_HEIGHT`. -/
def JustBeyond (W H i j : ℤ) : Prop :=
  0 ≤ i ∧ i ≤ W ∧ 0 ≤ j ∧ j ≤ H ∧ (i = W ∨ j = H)

theorem mem_writes_borderise : (i, j, c) ∈ writes (borderise W H r) ↔
    (InTerminal W H i j ∨ JustBeyond W H i j) ∧ frameChar r i j = some c := by
  rw [writes_borderise, List.mem_filter, mem_frameCells, and_comm]
  refine and_congr_left fun _ => ?_
  simp only [passes, decide_eq_true_eq, InTerminal, JustBeyond]
  omega

/-- **The borders**: around any rectangle and on any terminal, the border is right exactly when the
frame has no cell just beyond the terminal. -/
theorem rightBorder_iff (W H : ℤ) (r : Region) :
    RightBorder W H r (borderise W H r) ↔ ∀ i j, JustBeyond W H i j → frameChar r i j = none := by
  constructor
  · rintro ⟨-, hmem⟩ i j hbeyond
    rw [Option.eq_none_iff_forall_ne_some]
    intro c hc
    obtain ⟨hinside, -⟩ := (hmem i j c).mp (mem_writes_borderise.mpr ⟨.inr hbeyond, hc⟩)
    simp only [InTerminal, JustBeyond] at hinside hbeyond
    omega
  · intro hnone
    refine ⟨?_, fun i j c => ?_⟩
    · rw [writes_borderise]
      exact (nodup_positions r).sublist (List.filter_sublist.map _)
    · rw [mem_writes_borderise]
      refine and_congr_left fun hc => or_iff_left fun hbeyond => ?_
      rw [hnone i j hbeyond] at hc
      cases hc

/-- On a terminal of 80 columns and 24 rows the left side of the second border is drawn into row
24. -/
theorem not_rightBorder_below :
    (19, 24, 124) ∈ writes (borderise 80 24 Domain.domain2.region) ∧ ¬ InTerminal 80 24 19 24 ∧
      ¬ RightBorder 80 24 Domain.domain2.region (borderise 80 24 Domain.domain2.region) := by
  have hmem : (19, 24, 124) ∈ writes (borderise 80 24 Domain.domain2.region) := by decide
  have hout : ¬ InTerminal 80 24 19 24 := by decide
  exact ⟨hmem, hout, fun h => hout ((h.mem_iff 19 24 124).mp hmem).1⟩

end Camkes.Terminal
