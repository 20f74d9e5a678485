import Camkes.Data.Grid
import Camkes.Vgatest.VgaDriver

/-!
# What the terminal shows

The buffer is a grid, the coordinates are those of the next place in it (`Grid.next`), and the cells
are a log that goes around (`Grid.IsLog`).  A character keeps this (`exists_terminalPutchar`), hence
so do all calls (`session_spec`).
-/

namespace Camkes.Vgatest

open Grid

/-- The entries `log` have been written to the terminal. -/
structure Shows (log : List UInt16) (t : Terminal) : Prop where
  row_lt : t.row < vgaHeight
  column_lt : t.column < vgaWidth
  position : t.row * vgaWidth + t.column = log.length % (vgaWidth * vgaHeight)
  cells : IsLog blank log t.buffer

/-- The entry for a character and its color. -/
def entry (w : UInt8 × UInt8) : UInt16 := vgaEntry w.1 w.2

/-- The character is the low byte of a cell, and the colour its high byte. -/
theorem toNat_vgaEntry (uc color : UInt8) :
    (vgaEntry uc color).toNat = uc.toNat + 256 * color.toNat := by
  have huc := uc.toNat_lt
  have hcolor := color.toNat_lt
  have hmod : (8 : UInt16).toNat % 16 = 8 := rfl
  have hshift : color.toNat <<< 8 % 2 ^ 16 = color.toNat <<< 8 := by
    rw [Nat.shiftLeft_eq]
    exact Nat.mod_eq_of_lt (by omega)
  rw [vgaEntry, UInt16.toNat_or, UInt16.toNat_shiftLeft, UInt8.toNat_toUInt16,
    UInt8.toNat_toUInt16, hmod, hshift, Nat.or_comm, ← Nat.shiftLeft_add_eq_or_of_lt huc,
    Nat.shiftLeft_eq]
  omega

theorem displays_entry (w : UInt8 × UInt8) : Displays (entry w) w := by
  have hlt := w.1.toNat_lt
  rw [Displays, entry, toNat_vgaEntry]
  omega

theorem toNat_of_displays {cell : UInt16} {w : UInt8 × UInt8} (h : Displays cell w) :
    cell.toNat = w.1.toNat + 256 * w.2.toNat := by
  rw [← h.1, ← h.2]
  omega

theorem blank_eq : blank = 0x0720 := by decide

/-- `terminal_initialize` blanks the whole buffer. -/
theorem terminalInitialize_eq (buffer : Vector UInt16 (vgaWidth * vgaHeight)) :
    terminalInitialize buffer = some ⟨0, 0, initialColor, Vector.replicate _ blank⟩ := by
  have hfill := fill_eq (w := vgaWidth) (h := vgaHeight) blank buffer
  unfold fill fillRow at hfill
  unfold terminalInitialize
  rw [hfill]
  rfl

theorem shows_nil : Shows [] ⟨0, 0, initialColor, Vector.replicate _ blank⟩ where
  row_lt := by decide
  column_lt := by decide
  position := by decide
  cells := isLog_nil blank

variable {log : List UInt16} {t : Terminal}

/-- The coordinates after a character are those of the next place. -/
theorem terminalPutchar_eq (h : t.row * vgaWidth + t.column < vgaWidth * vgaHeight) (c : UInt8) :
    terminalPutchar t c = some
      { row := (next vgaWidth vgaHeight t.row t.column).1
        column := (next vgaWidth vgaHeight t.row t.column).2
        color := t.color
        buffer := CArray.put t.buffer ⟨t.row * vgaWidth + t.column, h⟩ (vgaEntry c t.color) } := by
  have hstore := CArray.store_fin t.buffer ⟨t.row * vgaWidth + t.column, h⟩ (vgaEntry c t.color)
  unfold terminalPutchar terminalPutentryat next
  rw [hstore]
  simp only [Option.bind_eq_bind, Option.bind_some]
  split_ifs
  · rfl
  · rfl
  · rfl

/-- A character never fails, and goes to the next cell. -/
theorem exists_terminalPutchar (ht : Shows log t) (c : UInt8) :
    ∃ t', terminalPutchar t c = some t' ∧ t'.color = t.color ∧
      Shows (log ++ [vgaEntry c t.color]) t' := by
  have hlt := index_lt ht.column_lt ht.row_lt
  have hnext := next_lt ht.column_lt ht.row_lt
  refine ⟨_, terminalPutchar_eq hlt c, rfl, hnext.1, hnext.2, ?_, ?_⟩
  · rw [List.length_append, List.length_singleton]
    exact next_position ht.column_lt ht.row_lt ht.position
  · exact ht.cells.put ht.position _

/-- A string never fails, and goes to the next cells. -/
theorem exists_terminalWrite (ht : Shows log t) (data : List UInt8) :
    ∃ t', terminalWrite t data = some t' ∧ t'.color = t.color ∧
      Shows (log ++ data.map (vgaEntry · t.color)) t' := by
  induction data generalizing log t with
  | nil => exact ⟨t, rfl, rfl, by rwa [List.map_nil, List.append_nil]⟩
  | cons c data ih =>
    obtain ⟨t₁, hput, hcolor, ht₁⟩ := exists_terminalPutchar ht c
    obtain ⟨t', hwrite, hcolor', ht'⟩ := ih ht₁
    refine ⟨t', ?_, hcolor'.trans hcolor, ?_⟩
    · rw [terminalWrite, List.foldlM_cons, hput]
      exact hwrite
    · rwa [hcolor, List.append_assoc, List.singleton_append] at ht'

/-- Calls never fail, and fill the cells in the order of the characters. -/
theorem exists_foldlM_exec (ht : Shows log t) (calls : List Call) :
    ∃ t', calls.foldlM Call.exec t = some t' ∧
      Shows (log ++ (written t.color calls).map entry) t' := by
  induction calls generalizing log t with
  | nil => exact ⟨t, rfl, by rwa [written, List.map_nil, List.append_nil]⟩
  | cons call calls ih =>
    cases call with
    | setcolor color =>
      -- the new color is that of the next entries
      exact ih (t := terminalSetcolor t color) ⟨ht.row_lt, ht.column_lt, ht.position, ht.cells⟩
    | write data =>
      obtain ⟨t₁, hwrite, hcolor, ht₁⟩ := exists_terminalWrite ht data
      obtain ⟨t', hrest, ht'⟩ := ih ht₁
      refine ⟨t', ?_, ?_⟩
      · rw [List.foldlM_cons, Call.exec, hwrite]
        exact hrest
      · rw [hcolor, List.append_assoc] at ht'
        rwa [written, List.map_append, List.map_map]

/-- **The terminal**: no store is outside the buffer; the coordinates count the characters, and
each cell shows the last one that came to it, in its color, or is still blank. -/
theorem session_spec (buffer : Vector UInt16 (vgaWidth * vgaHeight)) (calls : List Call) :
    ∃ t, session buffer calls = some t ∧ t.row < vgaHeight ∧ t.column < vgaWidth ∧
      t.row * vgaWidth + t.column =
        (written 0x07 calls).length % (vgaWidth * vgaHeight) ∧
      ∀ k : Fin (vgaWidth * vgaHeight),
        (∃ j w, IsGreatest
            {j | j < (written 0x07 calls).length ∧ j % (vgaWidth * vgaHeight) = k} j ∧
          (written 0x07 calls)[j]? = some w ∧ Displays (t.buffer.get k) w) ∨
        ((∀ j < (written 0x07 calls).length, j % (vgaWidth * vgaHeight) ≠ k) ∧
          t.buffer.get k = 0x0720) := by
  obtain ⟨t, hcalls, ht⟩ := exists_foldlM_exec shows_nil calls
  have hposition := ht.position
  have hcells := ht.cells
  simp only [List.nil_append, List.length_map, blank_eq, IsLog] at hposition hcells
  refine ⟨t, ?_, ht.row_lt, ht.column_lt, hposition, fun k => (hcells k).imp_left ?_⟩
  · rw [session, terminalInitialize_eq]
    exact hcalls
  · rintro ⟨j, hj, hentry⟩
    rw [List.getElem?_map] at hentry
    obtain ⟨w, hw, hk⟩ := Option.map_eq_some_iff.mp hentry
    exact ⟨j, w, hj, hw, hk ▸ displays_entry w⟩

/-- The screen is filled with `a`, light grey on black; `b` and `c`, white on blue, come to the
first two cells again. -/
theorem session_spec_wrapped :
    ∃ t, session (Vector.replicate _ 0)
        [.write (List.replicate 2000 97), .setcolor 0x1f, .write [98, 99]] = some t ∧
      t.row = 0 ∧ t.column = 2 ∧
      t.buffer.get ⟨0, by decide⟩ = 0x1f62 ∧ t.buffer.get ⟨1, by decide⟩ = 0x1f63 ∧
      t.buffer.get ⟨2, by decide⟩ = 0x0761 ∧ t.buffer.get ⟨1999, by decide⟩ = 0x0761 := by
  obtain ⟨t, hsession, -, hcolumn, hposition, hcells⟩ := session_spec (Vector.replicate _ 0)
    [.write (List.replicate 2000 97), .setcolor 0x1f, .write [98, 99]]
  have hwritten : written 0x07 [.write (List.replicate 2000 97), .setcolor 0x1f, .write [98, 99]] =
      List.replicate 2000 (97, 0x07) ++ [(98, 0x1f), (99, 0x1f)] := by
    rw [written, List.map_replicate]
    rfl
  have hfirst {j : ℕ} (hj : j < 2000) :
      (List.replicate 2000 ((97, 0x07) : UInt8 × UInt8) ++ [(98, 0x1f), (99, 0x1f)])[j]? =
        some (97, 0x07) := by
    rw [List.getElem?_append_left (by rwa [List.length_replicate]),
      List.getElem?_replicate_of_lt hj]
  have hagain {j : ℕ} (hj : 2000 ≤ j) :
      (List.replicate 2000 ((97, 0x07) : UInt8 × UInt8) ++ [(98, 0x1f), (99, 0x1f)])[j]? =
        [(98, 0x1f), (99, 0x1f)][j - 2000]? := by
    rw [List.getElem?_append_right (by rwa [List.length_replicate]), List.length_replicate]
  have hlength : (written 0x07
      [.write (List.replicate 2000 97), .setcolor 0x1f, .write [98, 99]]).length = 2002 := by
    rw [hwritten, List.length_append, List.length_replicate]
    rfl
  simp only [hlength, vgaWidth, vgaHeight] at hposition hcolumn hcells
  -- the last character that comes to a cell decides what it shows
  have hcell {k j : ℕ} {w : UInt8 × UInt8} (hk : k < 2000) (hj : j < 2002) (hjk : j % 2000 = k)
      (hlast : 2002 ≤ j + 2000)
      (hw : (List.replicate 2000 (97, 0x07) ++ [(98, 0x1f), (99, 0x1f)])[j]? = some w) :
      (t.buffer.get ⟨k, hk⟩).toNat = w.1.toNat + 256 * w.2.toNat := by
    obtain ⟨i, w', ⟨⟨hi, hik⟩, hgreatest⟩, hw', hdisplays⟩ | ⟨hnone, -⟩ := hcells ⟨k, hk⟩
    · have hij : i = j := by
        have hle := hgreatest ⟨hj, hjk⟩
        change i % 2000 = k at hik
        omega
      rw [hij, hwritten, hw, Option.some.injEq] at hw'
      rw [hw']
      exact toNat_of_displays hdisplays
    · exact absurd hjk (hnone j hj)
  refine ⟨t, hsession, by omega, by omega, ?_, ?_, ?_, ?_⟩
  · exact UInt16.toNat_inj.mp
      (hcell (k := 0) (j := 2000) (by decide) (by decide) rfl (by decide) (hagain (by decide)))
  · exact UInt16.toNat_inj.mp
      (hcell (k := 1) (j := 2001) (by decide) (by decide) rfl (by decide) (hagain (by decide)))
  · exact UInt16.toNat_inj.mp
      (hcell (k := 2) (j := 2) (by decide) (by decide) rfl (by decide) (hfirst (by decide)))
  · exact UInt16.toNat_inj.mp
      (hcell (k := 1999) (j := 1999) (by decide) (by decide) rfl (by decide) (hfirst (by decide)))

end Camkes.Vgatest
