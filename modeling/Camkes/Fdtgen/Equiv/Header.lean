import Camkes.Fdtgen.Equiv.Values

/-!
# The header of a blob

`header_iff`: a header can be read and printed exactly if it is there (`FdtHeader.encode`), and the
text is that of its fields (`FdtHeader.render`).
-/

namespace Camkes.Fdtgen

variable {b : Block} {p q : UInt32} {l : List UInt8}

/-! ### Cells -/

@[simp] theorem length_cell (x : ℕ) : (cell x).length = 4 := BigEndian.length_bytes 4 x

/-- A cell is read from the four bytes at the pointer. -/
theorem mem_of_getCell {x : UInt32} (h : getCell b p = some (x, q)) :
    ∃ c₀ c₁ c₂ c₃ rest, b.mem p = c₀ :: c₁ :: c₂ :: c₃ :: rest ∧ x = fdt32ToCpu c₀ c₁ c₂ c₃ ∧
      q = p + 4 := by
  rw [getCell] at h
  split at h
  · rename_i c₀ c₁ c₂ c₃ rest hmem
    obtain ⟨rfl, rfl⟩ := Prod.mk.inj (Option.some.inj h)
    exact ⟨c₀, c₁, c₂, c₃, rest, hmem, rfl, rfl⟩
  · cases h

theorem getCell_eq_some {x : UInt32} (h : getCell b p = some (x, q)) :
    q = p + 4 ∧ 4 ≤ (b.mem p).length := by
  obtain ⟨c₀, c₁, c₂, c₃, rest, hmem, -, rfl⟩ := mem_of_getCell h
  rw [hmem]
  exact ⟨rfl, by simp⟩

/-- An encoded cell is read as its number. -/
theorem getCell_of_cell {x : ℕ} (h : cell x ++ l <+: b.mem p) (hx : x < 2 ^ 32) :
    getCell b p = some (UInt32.ofNat x, p + 4) := by
  have hvalue := BigEndian.value_bytes (k := 4) (v := x) (by omega)
  obtain ⟨c₀, c₁, c₂, c₃, hcell⟩ : ∃ c₀ c₁ c₂ c₃, cell x = [c₀, c₁, c₂, c₃] :=
    ⟨_, _, _, _, rfl⟩
  rw [hcell] at h
  rw [getCell_of_mem h, fdt32ToCpu, ← hcell, cell, hvalue]

/-- What is read as a cell is encoded there. -/
theorem cell_of_getCell {x : UInt32} (h : getCell b p = some (x, q)) :
    cell x.toNat <+: b.mem p := by
  obtain ⟨c₀, c₁, c₂, c₃, rest, hmem, rfl, -⟩ := mem_of_getCell h
  have hlt : BigEndian.value [c₀, c₁, c₂, c₃] < 2 ^ 32 :=
    Nat.lt_of_lt_of_eq (BigEndian.value_lt _) (by simp)
  have hbytes : BigEndian.bytes 4 (BigEndian.value [c₀, c₁, c₂, c₃]) = [c₀, c₁, c₂, c₃] :=
    BigEndian.bytes_value [c₀, c₁, c₂, c₃]
  rw [hmem, cell, fdt32ToCpu, UInt32.toNat_ofNat', Nat.mod_eq_of_lt hlt, hbytes]
  exact ⟨rest, rfl⟩

/-! ### Fields -/

/-- What can be read from the field with this index on. -/
def fieldsFrom (b : Block) (i : ℕ) : List UInt8 := b.mem (b.base + UInt32.ofNat (4 * i))

theorem fieldsFrom_zero (b : Block) : fieldsFrom b 0 = b.bytes := by
  rw [fieldsFrom, Block.mem]
  show b.bytes.drop (b.base + 0 - b.base).toNat = b.bytes
  rw [UInt32.add_zero, UInt32.sub_self]
  rfl

/-- One field of the header, and the fields behind it. -/
theorem cell_append_prefix_iff (x : UInt32) (i : ℕ) :
    cell x.toNat ++ l <+: fieldsFrom b i ↔
      headerField b i = some x ∧ l <+: fieldsFrom b (i + 1) := by
  have haddr : b.base + UInt32.ofNat (4 * i) + UInt32.ofNat 4 =
      b.base + UInt32.ofNat (4 * (i + 1)) := by
    rw [UInt32.add_assoc, ← UInt32.ofNat_add, Nat.mul_succ]
  rw [fieldsFrom, Block.append_prefix_mem_iff, length_cell, haddr, headerField]
  refine and_congr_left fun _ => ?_
  rw [Option.map_eq_some_iff]
  constructor
  · intro h
    rw [← List.append_nil (cell _)] at h
    refine ⟨_, getCell_of_cell h x.toNat_lt, ?_⟩
    rw [UInt32.ofNat_toNat]
  · rintro ⟨⟨y, q⟩, hy, rfl⟩
    exact cell_of_getCell hy

/-- A field that is there if `P` holds, and nothing behind it otherwise. -/
theorem optional_append_prefix_iff {P : Prop} [Decidable P] (x : UInt32) (i : ℕ)
    (hl : ¬ P → l = []) :
    (if P then cell x.toNat else []) ++ l <+: fieldsFrom b i ↔
      (P → headerField b i = some x ∧ l <+: fieldsFrom b (i + 1)) := by
  by_cases hP : P
  · rw [if_pos hP, cell_append_prefix_iff]
    exact ⟨fun h _ => h, fun h => h hP⟩
  · rw [if_neg hP, hl hP]
    exact ⟨fun _ h => absurd h hP, fun _ => List.nil_prefix⟩

/-- The fields of a header are read one by one. -/
theorem encode_prefix_iff (f : FdtHeader) :
    f.encode <+: b.bytes ↔
      headerField b 0 = some f.magic ∧ headerField b 1 = some f.totalsize ∧
      headerField b 2 = some f.offDtStruct ∧ headerField b 3 = some f.offDtStrings ∧
      headerField b 4 = some f.offMemRsvmap ∧ headerField b 5 = some f.version ∧
      headerField b 6 = some f.lastCompVersion ∧
      (f.version ≥ 2 → headerField b 7 = some f.bootCpuidPhys) ∧
      (f.version ≥ 3 → headerField b 8 = some f.sizeDtStrings) ∧
      (f.version ≥ 17 → headerField b 9 = some f.sizeDtStruct) := by
  have h23 : f.version ≥ 3 → f.version ≥ 2 := UInt32.le_trans (by decide)
  have h317 : f.version ≥ 17 → f.version ≥ 3 := UInt32.le_trans (by decide)
  have hsize : (if f.version ≥ 17 then cell f.sizeDtStruct.toNat else []) <+: fieldsFrom b 9 ↔
      (f.version ≥ 17 → headerField b 9 = some f.sizeDtStruct) := by
    have hiff := optional_append_prefix_iff (P := f.version ≥ 17) (b := b) (l := [])
      f.sizeDtStruct 9 fun _ => rfl
    simpa using hiff
  rw [← fieldsFrom_zero]
  simp only [FdtHeader.encode, List.append_assoc, cell_append_prefix_iff]
  rw [optional_append_prefix_iff, optional_append_prefix_iff, hsize]
  · refine and_congr_right fun _ => and_congr_right fun _ => and_congr_right fun _ =>
      and_congr_right fun _ => and_congr_right fun _ => and_congr_right fun _ =>
      and_congr_right fun _ => ?_
    constructor
    · intro h
      exact ⟨fun h2 => (h h2).1, fun h3 => ((h (h23 h3)).2 h3).1,
        fun h17 => ((h (h23 (h317 h17))).2 (h317 h17)).2 h17⟩
    · rintro ⟨h7, h8, h9⟩ h2
      exact ⟨h7 h2, fun h3 => ⟨h8 h3, h9⟩⟩
  · intro h
    rw [if_neg (mt h317 h)]
  · intro h
    rw [if_neg (mt h23 h), if_neg (mt (h23 ∘ h317) h)]
    rfl

/-! ### The variables and the text -/

/-- The variables of `dump_blob` for a header. -/
def FdtHeader.variables (f : FdtHeader) : Header where
  offMemRsvmap := f.offMemRsvmap
  offDt := f.offDtStruct
  offStr := f.offDtStrings
  version := f.version
  totalsize := f.totalsize

/-- A field that is read and printed if `P` holds. -/
theorem optional_bind_eq_some_iff {P : Prop} [Decidable P] {x : Option UInt32}
    {line : UInt32 → List Char} {rest : List Char → Option (List Char)} {out : List Char} :
    (if P then x.map line >>= rest else some [] >>= rest) = some out ↔
      ∃ y, (P → x = some y) ∧ rest (if P then line y else []) = some out := by
  by_cases hP : P
  · simp [hP, Option.bind_eq_some_iff]
  · simp [hP]

/-- The fields that `dump_blob` reads first. -/
theorem readHeader_eq_some_iff {h : Header} :
    readHeader b = some h ↔
      headerField b 4 = some h.offMemRsvmap ∧ headerField b 2 = some h.offDt ∧
      headerField b 3 = some h.offStr ∧ headerField b 5 = some h.version ∧
      headerField b 1 = some h.totalsize := by
  constructor
  · intro hh
    obtain ⟨offMemRsvmap, h4, hh⟩ := Option.bind_eq_some_iff.mp hh
    obtain ⟨offDt, h2, hh⟩ := Option.bind_eq_some_iff.mp hh
    obtain ⟨offStr, h3, hh⟩ := Option.bind_eq_some_iff.mp hh
    obtain ⟨version, h5, hh⟩ := Option.bind_eq_some_iff.mp hh
    obtain ⟨totalsize, h1, hh⟩ := Option.bind_eq_some_iff.mp hh
    rw [← Option.some.inj hh]
    exact ⟨h4, h2, h3, h5, h1⟩
  · rintro ⟨h4, h2, h3, h5, h1⟩
    rw [readHeader, h4, h2, h3, h5, h1]
    rfl

theorem append_comment (l : List Char) (label : String) (value : List Char) :
    l ++ comment label value = l ++ label.toList ++ value ++ "\n".toList := by
  rw [comment, List.append_assoc, List.append_assoc, List.append_assoc]

/-- **The header** is read and printed exactly if it is there. -/
theorem header_iff {h : Header} {out : List Char} :
    readHeader b = some h ∧ printHeader b h = some out ↔
      ∃ f : FdtHeader, f.encode <+: b.bytes ∧ f.variables = h ∧ f.render = out := by
  rw [readHeader_eq_some_iff]
  constructor
  · rintro ⟨⟨h4, h2, h3, h5, h1⟩, hprint⟩
    obtain ⟨magic, h0, hprint⟩ := Option.bind_eq_some_iff.mp hprint
    obtain ⟨lastCompVersion, h6, hprint⟩ := Option.bind_eq_some_iff.mp hprint
    obtain ⟨bootCpuidPhys, h7, hprint⟩ := optional_bind_eq_some_iff.mp hprint
    obtain ⟨sizeDtStrings, h8, hprint⟩ := optional_bind_eq_some_iff.mp hprint
    obtain ⟨sizeDtStruct, h9, hprint⟩ := optional_bind_eq_some_iff.mp hprint
    refine ⟨⟨magic, h.totalsize, h.offDt, h.offStr, h.offMemRsvmap, h.version, lastCompVersion,
      bootCpuidPhys, sizeDtStrings, sizeDtStruct⟩, ?_, rfl, ?_⟩
    · exact (encode_prefix_iff _).mpr ⟨h0, h1, h2, h3, h4, h5, h6, h7, h8, h9⟩
    · rw [← Option.some.inj hprint]
      unfold FdtHeader.render
      simp only [append_comment]
      unfold comment
      rfl
  · rintro ⟨f, hf, rfl, rfl⟩
    obtain ⟨h0, h1, h2, h3, h4, h5, h6, h7, h8, h9⟩ := (encode_prefix_iff f).mp hf
    refine ⟨⟨h4, h2, h3, h5, h1⟩, ?_⟩
    refine Option.bind_eq_some_iff.mpr ⟨f.magic, h0, ?_⟩
    refine Option.bind_eq_some_iff.mpr ⟨f.lastCompVersion, h6, ?_⟩
    refine optional_bind_eq_some_iff.mpr ⟨f.bootCpuidPhys, h7, ?_⟩
    refine optional_bind_eq_some_iff.mpr ⟨f.sizeDtStrings, h8, ?_⟩
    refine optional_bind_eq_some_iff.mpr ⟨f.sizeDtStruct, h9, ?_⟩
    unfold FdtHeader.render
    simp only [append_comment]
    unfold comment
    rfl

/-- The header is determined by the blob, as far as the loops depend on it. -/
theorem FdtHeader.variables_eq {f g : FdtHeader} (hf : f.encode <+: b.bytes)
    (hg : g.encode <+: b.bytes) : f.variables = g.variables := by
  have hread := (header_iff.mpr ⟨f, hf, rfl, rfl⟩).1
  exact Option.some.inj (hread.symm.trans (header_iff.mpr ⟨g, hg, rfl, rfl⟩).1)

end Camkes.Fdtgen
