import Camkes.Aeroplage.VesaDriver
import Camkes.Data.Loops
import Camkes.Data.Page

/-!
# Window isolation

The window of a domain is a page of 22 columns and 10 rows of characters (`Domain.page`).  After `n`
characters have been drawn in it the cursor is at the `n`-th cell of the page, and a further
character is drawn only if there is such a cell (`Screen.Filled`).  So each character has a cell of
its own, strictly inside the window.
-/

namespace Camkes.Aeroplage

variable {x y : ℕ} {c : UInt8} {d : Domain} {s : Screen} {n : Domain → ℕ} {q : SetPixel}

/-! ### Drawing -/

theorem toPixels_ofNat : ∀ i : Fin 256, printable (UInt8.ofNat i.val) = true →
    (toPixels (UInt8.ofNat i.val)).any fun pixels => pixels.length = 52 := by
  decide +kernel

/-- Every printable character has a bitmap, of 26 rows of two bytes. -/
theorem toPixels_of_printable (h : printable c = true) :
    ∃ pixels, toPixels c = some pixels ∧ pixels.length = 52 := by
  have hc : UInt8.ofNat c.toNat = c := UInt8.ofNat_toNat
  have hany := toPixels_ofNat ⟨c.toNat, c.toNat_lt⟩
  rw [hc] at hany
  obtain ⟨pixels, hpixels, hlen⟩ := (Option.any_eq_true _ _).mp (hany h)
  exact ⟨pixels, hpixels, of_decide_eq_true hlen⟩

/-- The accesses to the bitmap are in bounds. -/
theorem drawPixel_isSome {pixels : List UInt8} (hlen : pixels.length = 52) {i j : ℕ}
    (hi : i < charHeight) (hj : j < charWidth) :
    ∃ q, drawPixel x y pixels i j = some q ∧ q.x = x + j ∧ q.y = y + i := by
  have hindex : (j + i * rowWidth) / 8 < pixels.length := by
    have hrow : rowWidth = 16 := rfl
    rw [hlen, hrow]
    simp only [charHeight, charWidth] at hi hj
    omega
  rw [drawPixel, List.getElem?_eq_getElem hindex]
  exact ⟨_, rfl, rfl, rfl⟩

/-- **Drawing** a printable character succeeds and stays in its rectangle. -/
theorem draw_spec (h : printable c = true) (x y : ℕ) :
    ∃ pixels, draw x y c = some pixels ∧
      ∀ q ∈ pixels, x ≤ q.x ∧ q.x < x + charWidth ∧ y ≤ q.y ∧ q.y < y + charHeight := by
  obtain ⟨pixels, hpixels, hlen⟩ := toPixels_of_printable h
  obtain ⟨qs, hqs, hall⟩ := exists_mapM (f := fun ij => drawPixel x y pixels ij.1 ij.2)
    (P := fun ij q => q.x = x + ij.2 ∧ q.y = y + ij.1)
    (l := List.range charHeight ×ˢ List.range charWidth) fun ij hij => by
      obtain ⟨hi, hj⟩ := List.mem_product.mp hij
      exact drawPixel_isSome hlen (List.mem_range.mp hi) (List.mem_range.mp hj)
  refine ⟨qs, ?_, fun q hq => ?_⟩
  · rw [draw, hpixels]
    exact hqs
  · obtain ⟨⟨i, j⟩, hij, hx, hy⟩ := exists_of_forall₂ hall hq
    obtain ⟨hi, hj⟩ := List.mem_product.mp hij
    have hi := List.mem_range.mp hi
    have hj := List.mem_range.mp hj
    refine ⟨?_, ?_, ?_, ?_⟩ <;> omega

/-! ### The windows as pages -/

/-- Where the lines of a window start. -/
def Domain.left : Domain → ℕ
  | .low => 100 + 2
  | .high => 200 + windowWidth + 2

/-- Where the lines of a window end. -/
def Domain.right : Domain → ℕ
  | .low => 100 + windowWidth - 3
  | .high => 200 + 2 * windowWidth - 3

/-- The cells of the window. -/
def Domain.page (d : Domain) : Page where
  left := d.left
  top := 100 + 4 + charHeight
  width := charWidth
  height := charHeight
  cols := 22
  rows := 10
  cols_pos := by decide

/-- The number of characters that a window has room for. -/
def capacity : ℕ := 22 * 10

/-- The cursor after `n` characters. -/
def Domain.cursorAt (d : Domain) (n : ℕ) : Cursor where
  x := d.page.cellX n
  y := d.page.cellY n

theorem write_eq (d : Domain) : d.write = writeChar d.left d.right := by
  cases d <;> rfl

theorem cursor_init (d : Domain) : Screen.init.cursor d = d.cursorAt 0 := by
  cases d <;> rfl

/-- The test for the end of a line: there is no room for another character in it. -/
theorem right_le_iff (d : Domain) (n : ℕ) :
    d.right ≤ (d.cursorAt n).x + charWidth ↔ n % 22 + 1 = 22 := by
  have hx : (d.cursorAt n).x = d.left + 14 * (n % 22) := rfl
  have hcol := Nat.mod_lt n (show 22 > 0 by decide)
  rw [hx]
  cases d <;> simp only [Domain.left, Domain.right, windowWidth, charWidth] <;> omega

/-- The test for the end of the window. -/
theorem bottom_le_iff (d : Domain) (n : ℕ) :
    100 + windowHeight - charHeight ≤ (d.cursorAt n).y ↔ capacity ≤ n := by
  have hy : (d.cursorAt n).y = 130 + 26 * (n / 22) := rfl
  rw [hy]
  simp only [windowHeight, charHeight, capacity]
  omega

/-- **A character that is drawn** is drawn in the next cell. -/
theorem write_of_lt (d : Domain) {n : ℕ} (hc : printable c = true) (hn : n < capacity) :
    ∃ pixels, d.write (d.cursorAt n) c = some (d.cursorAt (n + 1), pixels) ∧
      ∀ q ∈ pixels, (q.x, q.y) ∈ d.page.cell n := by
  obtain ⟨pixels, hdraw, hall⟩ := draw_spec hc (d.cursorAt n).x (d.cursorAt n).y
  refine ⟨pixels, ?_, hall⟩
  have hbottom : ¬ 100 + windowHeight - charHeight ≤ (d.cursorAt n).y := by
    rw [bottom_le_iff]
    omega
  rw [write_eq, writeChar, if_neg (by simp [hc]), if_neg hbottom, hdraw]
  by_cases hright : n % 22 + 1 = 22
  · obtain ⟨hx, hy⟩ := d.page.cell_succ_of_eq hright
    have hnext : d.cursorAt (n + 1) = { x := d.left, y := (d.cursorAt n).y + charHeight } :=
      congrArg₂ Cursor.mk hx hy
    simp only [Option.bind_eq_bind, Option.bind_some, if_pos ((right_le_iff d n).mpr hright)]
    rw [hnext]
  · have hlt : n % 22 + 1 < 22 := by
      have hcol := Nat.mod_lt n (show 22 > 0 by decide)
      omega
    obtain ⟨hx, hy⟩ := d.page.cell_succ_of_lt hlt
    have hnext : d.cursorAt (n + 1) = { d.cursorAt n with x := (d.cursorAt n).x + charWidth } :=
      congrArg₂ Cursor.mk hx hy
    simp only [Option.bind_eq_bind, Option.bind_some, if_neg (mt (right_le_iff d n).mp hright)]
    rw [hnext]

/-- Other characters change nothing. -/
theorem write_of_not (d : Domain) {n : ℕ} (h : ¬ (printable c = true ∧ n < capacity)) :
    d.write (d.cursorAt n) c = some (d.cursorAt n, []) := by
  rw [write_eq, writeChar]
  by_cases hc : printable c = true
  · have hbottom := (bottom_le_iff d n).mpr (not_lt.mp fun hn => h ⟨hc, hn⟩)
    rw [if_neg (by simp [hc]), if_pos hbottom]
  · rw [if_pos hc]

/-! ### Where the windows are -/

/-- A pixel strictly inside the window of a domain. -/
def Domain.Inside (d : Domain) (q : SetPixel) : Prop :=
  (match d with
    | .low => 100 < q.x ∧ q.x < 100 + windowWidth
    | .high => 200 + windowWidth < q.x ∧ q.x < 200 + 2 * windowWidth) ∧
  100 + 4 + charHeight ≤ q.y ∧ q.y < 100 + windowHeight

/-- A cell of a window lies inside it. -/
theorem inside_of_mem_cell {k : ℕ} (hk : k < capacity) (h : (q.x, q.y) ∈ d.page.cell k) :
    d.Inside q := by
  obtain ⟨hleft, hright, htop, hbottom⟩ := d.page.cell_subset hk h
  simp only [Domain.page, charWidth, charHeight] at hleft hright htop hbottom
  cases d with
  | low =>
    simp only [Domain.left] at hleft hright
    simp only [Domain.Inside, windowWidth, windowHeight, charHeight]
    omega
  | high =>
    simp only [Domain.left, windowWidth] at hleft hright
    simp only [Domain.Inside, windowWidth, windowHeight, charHeight]
    omega

/-- A pixel lies inside one window only. -/
theorem Domain.Inside.domain_eq {e : Domain} (hd : d.Inside q) (he : e.Inside q) : d = e := by
  cases d <;> cases e <;> simp only [Domain.Inside, windowWidth] at hd he <;> first | rfl | omega

/-! ### The screen -/

/-- No pixel is set by both calls. -/
def Written.Apart (w v : Written) : Prop :=
  ∀ q ∈ w.pixels, ∀ r ∈ v.pixels, (q.x, q.y) ≠ (r.x, r.y)

/-- There is no room for another line in the window. -/
def Screen.Full (s : Screen) (d : Domain) : Prop :=
  100 + windowHeight < (s.cursor d).y + charHeight

/-- `n d` characters have been drawn in the window of `d`, each in a cell of its own. -/
structure Screen.Filled (s : Screen) (n : Domain → ℕ) : Prop where
  le : ∀ d, n d ≤ capacity
  cursor_eq : ∀ d, s.cursor d = d.cursorAt (n d)
  mem_cell : ∀ w ∈ s.written, ∀ q ∈ w.pixels,
    ∃ k < n w.domain, (q.x, q.y) ∈ w.domain.page.cell k
  apart : s.written.Pairwise Written.Apart

theorem filled_init : Screen.init.Filled fun _ => 0 :=
  ⟨fun _ => Nat.zero_le _, cursor_init, nofun, .nil⟩

theorem Screen.Filled.inside (h : s.Filled n) {w : Written} (hw : w ∈ s.written)
    (hq : q ∈ w.pixels) : w.domain.Inside q := by
  obtain ⟨k, hk, hcell⟩ := h.mem_cell w hw q hq
  exact inside_of_mem_cell (hk.trans_le (h.le w.domain)) hcell

/-- A window is full when all its cells are filled. -/
theorem Screen.Filled.full_iff (h : s.Filled n) (d : Domain) : s.Full d ↔ n d = capacity := by
  have hle := h.le d
  have hy : (d.cursorAt (n d)).y = 130 + 26 * (n d / 22) := rfl
  rw [Screen.Full, h.cursor_eq, hy]
  simp only [capacity, windowHeight, charHeight] at hle ⊢
  omega

/-- A character is drawn in the next cell of its window. -/
theorem Screen.Filled.draw (h : s.Filled n) (hn : n d < capacity) {pixels : List SetPixel}
    (hcell : ∀ q ∈ pixels, (q.x, q.y) ∈ d.page.cell (n d)) :
    Screen.Filled ⟨Function.update s.cursor d (d.cursorAt (n d + 1)),
      s.written ++ [⟨d, c, pixels⟩]⟩ (Function.update n d (n d + 1)) := by
  have hmono : ∀ e, n e ≤ Function.update n d (n d + 1) e := by
    intro e
    rw [Function.update_apply]
    split_ifs with he
    · rw [he]
      exact Nat.le_succ _
    · exact le_rfl
  refine ⟨fun e => ?_, fun e => ?_, fun w hw q hq => ?_, ?_⟩
  · rw [Function.update_apply]
    split_ifs
    · exact hn
    · exact h.le e
  · show Function.update s.cursor d (d.cursorAt (n d + 1)) e = _
    by_cases he : e = d
    · subst he
      rw [Function.update_self, Function.update_self]
    · rw [Function.update_of_ne he, Function.update_of_ne he, h.cursor_eq]
  · rcases List.mem_append.mp hw with hw | hw
    · obtain ⟨k, hk, hmem⟩ := h.mem_cell w hw q hq
      exact ⟨k, hk.trans_le (hmono _), hmem⟩
    · obtain rfl := List.mem_singleton.mp hw
      refine ⟨n d, ?_, hcell q hq⟩
      rw [Function.update_self]
      exact Nat.lt_succ_self _
  · refine List.pairwise_append.mpr ⟨h.apart, List.pairwise_singleton _ _, ?_⟩
    intro w hw v hv q hq r hr heq
    obtain rfl := List.mem_singleton.mp hv
    -- `q` would be in an earlier cell of the same window
    obtain ⟨k, hk, hmem⟩ := h.mem_cell w hw q hq
    have hr := hcell r hr
    have hinside := h.inside hw hq
    have hinside' : d.Inside q := by
      have hr' := hr
      rw [← heq] at hr'
      exact inside_of_mem_cell hn hr'
    rw [hinside.domain_eq hinside'] at hk hmem
    rw [← heq] at hr
    exact absurd (Page.eq_of_mem_cell hmem hr) hk.ne

/-- A character is not drawn. -/
theorem Screen.Filled.skip (h : s.Filled n) :
    Screen.Filled ⟨s.cursor, s.written ++ [⟨d, c, []⟩]⟩ n := by
  refine ⟨h.le, h.cursor_eq, fun w hw q hq => ?_, ?_⟩
  · rcases List.mem_append.mp hw with hw | hw
    · exact h.mem_cell w hw q hq
    · obtain rfl := List.mem_singleton.mp hw
      cases hq
  · refine List.pairwise_append.mpr ⟨h.apart, List.pairwise_singleton _ _, ?_⟩
    intro w _ v hv q _ r hr
    obtain rfl := List.mem_singleton.mp hv
    cases hr

/-- The number of characters for `d` that can be displayed. -/
def printableCalls (d : Domain) (calls : List (Domain × UInt8)) : ℕ :=
  calls.countP fun call => call.1 = d ∧ printable call.2

theorem printableCalls_concat (d e : Domain) (c : UInt8) (calls : List (Domain × UInt8)) :
    printableCalls e (calls ++ [(d, c)]) =
      printableCalls e calls + if d = e ∧ printable c then 1 else 0 := by
  rw [printableCalls, List.countP_append, List.countP_singleton]
  simp only [decide_eq_true_eq]
  rfl

/-- **A call** of `write_low` or `write_high`: it succeeds, counts if there is room, and sets no
pixel of a full window. -/
theorem Screen.Filled.write (h : s.Filled n) (d : Domain) (c : UInt8) :
    ∃ s' n' pixels, s.write d c = some s' ∧ s'.Filled n' ∧
      s'.written = s.written ++ [⟨d, c, pixels⟩] ∧
      (∀ e, n' e = min capacity (n e + if d = e ∧ printable c then 1 else 0)) ∧
      (n d = capacity → pixels = []) := by
  by_cases hdraw : printable c = true ∧ n d < capacity
  · obtain ⟨pixels, hwrite, hcell⟩ := write_of_lt d hdraw.1 hdraw.2
    rw [← h.cursor_eq] at hwrite
    refine ⟨_, _, pixels, ?_, h.draw hdraw.2 hcell, rfl, fun e => ?_, fun hd => ?_⟩
    · rw [Screen.write, hwrite]
      rfl
    · by_cases he : d = e
      · subst he
        rw [Function.update_self, if_pos ⟨rfl, hdraw.1⟩, min_eq_right hdraw.2]
      · rw [Function.update_of_ne (Ne.symm he), if_neg (fun hde => he hde.1), Nat.add_zero,
          min_eq_right (h.le e)]
    · omega
  · have hwrite := write_of_not d hdraw
    rw [← h.cursor_eq] at hwrite
    refine ⟨_, n, [], ?_, h.skip, rfl, fun e => ?_, fun _ => rfl⟩
    · rw [Screen.write, hwrite]
      show some (Screen.mk (Function.update s.cursor d (s.cursor d)) _) = _
      rw [Function.update_eq_self]
    · have hle := h.le e
      split_ifs with hde
      · -- the window is full
        obtain ⟨rfl, hc⟩ := hde
        have hfull := not_lt.mp fun hn => hdraw ⟨hc, hn⟩
        omega
      · omega

/-- The calls lead from `s`, where `n d` characters have been drawn in the window of `d`, to `s'`,
and have set no pixel of a window that was full. -/
def Screen.Continues (s : Screen) (n : Domain → ℕ) (calls : List (Domain × UInt8))
    (s' : Screen) : Prop :=
  ∃ n' new, s'.Filled n' ∧ s'.written = s.written ++ new ∧
    new.map (fun w => (w.domain, w.char)) = calls ∧
    (∀ d, n' d = min capacity (n d + printableCalls d calls)) ∧
    ∀ d, n d = capacity → ∀ w ∈ new, w.domain = d → w.pixels = []

/-- The same for any calls. -/
theorem Screen.Filled.writeAll (h : s.Filled n) (calls : List (Domain × UInt8)) :
    ∃ s', s.writeAll calls = some s' ∧ s.Continues n calls s' := by
  have hnil : s.Continues n [] s :=
    ⟨n, [], h, (List.append_nil _).symm, rfl, fun d => (min_eq_right (h.le d)).symm, nofun⟩
  refine exists_foldlM hnil ?_
  rintro done ⟨d, c⟩ _ s₁ - ⟨n₁, new, h₁, hnew, hdone, hcount, hfull⟩
  obtain ⟨s₂, n₂, pixels, hwrite, h₂, hwritten, hcount₂, hfull₂⟩ := h₁.write d c
  refine ⟨s₂, hwrite, n₂, new ++ [⟨d, c, pixels⟩], h₂, ?_, ?_, fun e => ?_, fun e he => ?_⟩
  · rw [hwritten, hnew, List.append_assoc]
  · rw [List.map_append, hdone]
    rfl
  · rw [hcount₂, hcount, printableCalls_concat]
    omega
  · intro w hw hd
    rcases List.mem_append.mp hw with hw | hw
    · exact hfull e he w hw hd
    · obtain rfl := List.mem_singleton.mp hw
      obtain rfl : d = e := hd
      have hcount' := hcount d
      exact hfull₂ (by omega)

/-- **Window isolation**: whatever characters come from the two inputs, no assertion and no access
to a bitmap fails, each pixel lies strictly inside the window of its domain, and no two calls set
the same pixel.  A window is full when it has been passed as many printable characters as it has
room for, and further characters change nothing in it. -/
theorem windows_isolated (calls : List (Domain × UInt8)) :
    ∃ s, Screen.init.writeAll calls = some s ∧
      s.written.map (fun w => (w.domain, w.char)) = calls ∧
      (∀ w ∈ s.written, ∀ q ∈ w.pixels, w.domain.Inside q) ∧
      s.written.Pairwise Written.Apart ∧
      ∀ d, (s.Full d ↔ capacity ≤ printableCalls d calls) ∧
        (s.Full d → ∀ more, ∃ s', s.writeAll more = some s' ∧ s'.cursor d = s.cursor d ∧
          ∃ new, s'.written = s.written ++ new ∧ ∀ w ∈ new, w.domain = d → w.pixels = []) := by
  obtain ⟨s, hs, n, new, h, hwritten, hcalls, hcount, -⟩ := filled_init.writeAll calls
  refine ⟨s, hs, ?_, fun w hw q hq => h.inside hw hq, h.apart, fun d => ⟨?_, fun hd more => ?_⟩⟩
  · rwa [hwritten]
  · rw [h.full_iff, hcount, Nat.zero_add]
    omega
  · have hn := (h.full_iff d).mp hd
    obtain ⟨s', hs', n', new', h', hwritten', -, hcount', hfull⟩ := h.writeAll more
    have hn' : n' d = capacity := by
      rw [hcount', hn]
      exact min_eq_left (Nat.le_add_right _ _)
    refine ⟨s', hs', ?_, new', hwritten', hfull d hn⟩
    rw [h'.cursor_eq, h.cursor_eq, hn, hn']

end Camkes.Aeroplage
