import Camkes.Fdtgen.Tree

/-!
# The values that `fdtgen` prints

`utilIsPrintableString_iff`: `util_is_printable_string` finds out whether the data are strings of
printable characters, at least one and none of them empty, each with its NUL, and it reads nothing
but the data.  The two loops are related to the list of the data one after the other
(`printableSpan_eq`, `printableLoop_eq`).

`printData_eq`: `print_data` prints `renderData` of the data.  `renderData_eq_iff`: what is printed
determines the data, unless they are strings, of which it is the first one only.
-/

namespace Camkes.Fdtgen

open Printf (hexPad length_hexPad hexPad_injective)

variable {b : Block} {p : UInt32} {l l' : List UInt8}

/-! ### Memory -/

theorem byte_of_cons {c : UInt8} (h : c :: l <+: b.mem p) : byte b p = some c := by
  obtain ⟨t, ht⟩ := h
  rw [byte, ← ht]
  rfl

theorem prefix_mem_succ {c : UInt8} (h : c :: l <+: b.mem p) : l <+: b.mem (p + 1) :=
  Block.prefix_mem_add (n := 1) h (by simp)

theorem getCell_of_mem {c₀ c₁ c₂ c₃ : UInt8} (h : c₀ :: c₁ :: c₂ :: c₃ :: l <+: b.mem p) :
    getCell b p = some (fdt32ToCpu c₀ c₁ c₂ c₃, p + 4) := by
  obtain ⟨t, ht⟩ := h
  rw [getCell, ← ht]
  rfl

theorem exists_cell (h : 4 ≤ l.length) :
    ∃ c₀ c₁ c₂ c₃ rest, l = c₀ :: c₁ :: c₂ :: c₃ :: rest := by
  rcases l with _ | ⟨c₀, _ | ⟨c₁, _ | ⟨c₂, _ | ⟨c₃, rest⟩⟩⟩⟩
  · simp at h
  · simp at h
  · simp at h
  · simp at h
  · exact ⟨c₀, c₁, c₂, c₃, rest, rfl⟩

theorem exists_cell_of_ne_nil (hl : l.length % 4 = 0) (hne : l ≠ []) :
    ∃ c₀ c₁ c₂ c₃ rest, l = c₀ :: c₁ :: c₂ :: c₃ :: rest := by
  have hpos := List.length_pos_iff.mpr hne
  exact exists_cell (by omega)

/-- The string at the data is the one that they begin with. -/
theorem cstring_of_mem (h : l <+: b.mem p) (hz : 0 ∈ l) :
    cstring b p = some (l.takeWhile (· ≠ 0)) := by
  obtain ⟨t, ht⟩ := h
  have hcut := Sentinel.cut_append_of_mem hz t
  rw [cstring, ← ht, CString.read, if_pos (List.mem_append_left t hz)]
  exact congrArg some (List.append_cancel_right hcut)

/-! ### Strings -/

/-- What the inner loop goes over. -/
def printable (c : UInt8) : Bool := c ≠ 0 ∧ isprint c

/-- The inner loop goes over the printable characters at its beginning. -/
theorem printableSpan_eq (h : l <+: b.mem p) :
    printableSpan b l.length p = some (l.takeWhile printable).length := by
  induction l generalizing p with
  | nil => rfl
  | cons c l ih =>
    rw [List.length_cons, printableSpan, byte_of_cons h]
    by_cases hc : c ≠ 0 ∧ isprint c
    · rw [List.takeWhile_cons_of_pos (by simpa [printable] using hc), List.length_cons,
        Option.bind_eq_bind, Option.bind_some, if_pos hc, ih (prefix_mem_succ h)]
      rfl
    · rw [List.takeWhile_cons_of_neg (by simpa [printable] using hc),
        Option.bind_eq_bind, Option.bind_some, if_neg hc]
      rfl

/-- Printable characters are gone over inside a string. -/
theorem stringsFrom_append {s : List UInt8} (hs : ∀ c ∈ s, printable c) (l : List UInt8) :
    stringsFrom true (s ++ l) = stringsFrom true l := by
  induction s with
  | nil => rfl
  | cons c s ih =>
    rw [List.forall_mem_cons] at hs
    have hc : c ≠ 0 ∧ isprint c := by simpa [printable] using hs.1
    rw [List.cons_append, stringsFrom, ih hs.2]
    simp [hc.1, hc.2]

theorem isprint_eq_false {c : UInt8} (hc : ¬ printable c) (hz : c ≠ 0) : isprint c = false := by
  simpa [printable, hz] using hc

/-- Before a character that is not printable, strings must have ended. -/
theorem stringsFrom_takeWhile {c : UInt8} {s rest : List UInt8} (hs : ∀ c ∈ s, printable c)
    (hc : ¬ printable c) :
    stringsFrom false (s ++ c :: rest) =
      if c ≠ 0 ∨ s.length = 0 then false else stringsFrom false rest := by
  cases s with
  | nil =>
    have hprint : isprint c = false := by
      by_cases hz : c = 0
      · rw [hz]
        rfl
      · exact isprint_eq_false hc hz
    simp [stringsFrom, hprint]
  | cons d s =>
    rw [List.forall_mem_cons] at hs
    have hd : d ≠ 0 ∧ isprint d := by simpa [printable] using hs.1
    have hfirst : stringsFrom false (d :: s ++ c :: rest) = stringsFrom true (c :: rest) := by
      rw [List.cons_append, stringsFrom, stringsFrom_append hs.2]
      simp [hd.2]
    rw [hfirst, stringsFrom]
    by_cases hz : c = 0
    · simp [hz]
    · simp [hz, isprint_eq_false hc hz]

/-- The outer loop goes over strings that are separated by NULs. -/
theorem printableLoop_eq (h : l <+: b.mem p) (hlast : ∀ c, l.getLast? = some c → c = 0) :
    printableLoop b l.length p = some (stringsFrom false l) := by
  induction hn : l.length using Nat.strong_induction_on generalizing l p with
  | _ n ih =>
    subst hn
    rw [printableLoop]
    rcases l.eq_nil_or_concat with rfl | ⟨l₀, z, hconcat⟩
    · rfl
    have hne : l ≠ [] := by simp [hconcat]
    rw [if_neg (by simpa using hne), printableSpan_eq h]
    -- the inner loop stops at a character, which is the last one at the latest
    have hz : z = 0 := hlast z (by simp [hconcat])
    obtain ⟨c, rest, hdrop⟩ : ∃ c rest, l.dropWhile printable = c :: rest := by
      apply List.exists_cons_of_ne_nil
      rw [Ne, List.dropWhile_eq_nil_iff]
      intro hall
      have hprint := hall z (by simp [hconcat])
      rw [hz] at hprint
      cases hprint
    have hc : ¬ printable c := by
      have hhead := List.head?_dropWhile_not printable l
      rw [hdrop] at hhead
      simpa using hhead
    have hsplit : l.takeWhile printable ++ c :: rest = l := by
      rw [← hdrop, List.takeWhile_append_dropWhile]
    have hs : ∀ d ∈ l.takeWhile printable, printable d := fun d hd => List.mem_takeWhile_imp hd
    generalize l.takeWhile printable = s at hsplit hs
    subst hsplit
    have htail := (Block.append_prefix_mem_iff.mp h).2
    rw [stringsFrom_takeWhile hs hc, Option.bind_eq_bind, Option.bind_some, byte_of_cons htail,
      Option.bind_eq_bind, Option.bind_some]
    by_cases hstop : c ≠ 0 ∨ s.length = 0
    · rw [if_pos hstop, if_pos hstop]
    · rw [if_neg hstop, if_neg hstop]
      have hlen : (s ++ c :: rest).length - (s.length + 1) = rest.length := by
        simp
        omega
      rw [hlen]
      refine ih rest.length ?_ (prefix_mem_succ htail) (fun d hd => hlast d ?_) rfl
      · simp
        omega
      · rw [List.getLast?_append, List.getLast?_cons, hd]
        rfl

theorem stringsFrom_concat {z : UInt8} (hz : z ≠ 0) (inside : Bool) (l : List UInt8) :
    stringsFrom inside (l ++ [z]) = false := by
  induction l generalizing inside with
  | nil => simp [stringsFrom, hz]
  | cons c l ih => simp [stringsFrom, ih]

/-- `util_is_printable_string` never reads outside the value. -/
theorem utilIsPrintableString_eq (h : l <+: b.mem p) :
    utilIsPrintableString b p l.length = some (stringList l) := by
  rw [utilIsPrintableString, stringList]
  rcases l.eq_nil_or_concat with rfl | ⟨l₀, z, hconcat⟩
  · rfl
  rw [List.concat_eq_append] at hconcat
  have hlen : l.length = l₀.length + 1 := by simp [hconcat]
  have hcast : (l.length : ℤ) - 1 = l₀.length := by omega
  have hlast : byte b (p + UInt32.ofNat l₀.length) = some z := by
    rw [hconcat] at h
    exact byte_of_cons (Block.append_prefix_mem_iff.mp h).2
  have hempty : l.isEmpty = false := by simp [hconcat]
  rw [if_neg (by omega), hcast, ofInt_natCast, hlast, hempty, Int.toNat_natCast,
    Option.bind_eq_bind, Option.bind_some, Bool.not_false, Bool.true_and]
  by_cases hz : z = 0
  · rw [if_neg (not_not_intro hz)]
    refine printableLoop_eq h fun c hc => ?_
    rw [hconcat, List.getLast?_concat] at hc
    rw [← hz]
    exact (Option.some.inj hc).symm
  · rw [if_pos hz, hconcat, stringsFrom_concat hz]

theorem printable_of_isprint {c : UInt8} (hc : isprint c) : printable c := by
  have hz : c ≠ 0 := by
    rintro rfl
    cases hc
  simp [printable, hz, hc]

theorem stringsFrom_string {s : List UInt8} (hs : ∀ c ∈ s, isprint c) (hne : s ≠ [])
    (rest : List UInt8) : stringsFrom false (s ++ 0 :: rest) = stringsFrom false rest := by
  have hlen : s.length ≠ 0 := by simpa using hne
  rw [stringsFrom_takeWhile (fun c hc => printable_of_isprint (hs c hc)) (by decide),
    if_neg (by simpa using hlen)]

/-- What is left of a string list, in a string or between two of them. -/
theorem exists_of_stringsFrom {inside : Bool} (h : stringsFrom inside l = true) :
    ∃ (s : List UInt8) (ss : List (List UInt8)), (∀ c ∈ s, isprint c) ∧
      (∀ s ∈ ss, s ≠ [] ∧ ∀ c ∈ s, isprint c) ∧
      l = if inside then s ++ 0 :: ss.flatMap (· ++ [0]) else ss.flatMap (· ++ [0]) := by
  induction l generalizing inside with
  | nil =>
    cases inside with
    | false => exact ⟨[], [], by simp⟩
    | true => cases h
  | cons c l ih =>
    rw [stringsFrom] at h
    by_cases hend : inside && c = 0
    · rw [if_pos hend] at h
      obtain ⟨s, ss, -, hss, hl⟩ := ih h
      obtain ⟨hinside, hz⟩ : inside = true ∧ c = 0 := by simpa using hend
      refine ⟨[], ss, by simp, hss, ?_⟩
      rw [hinside, hz, hl]
      rfl
    · rw [if_neg hend, Bool.and_eq_true] at h
      obtain ⟨s, ss, hs, hss, hl⟩ := ih h.2
      have hcs : ∀ d ∈ c :: s, isprint d := List.forall_mem_cons.mpr ⟨h.1, hs⟩
      rw [if_pos rfl] at hl
      cases inside with
      | true =>
        refine ⟨c :: s, ss, hcs, hss, ?_⟩
        rw [hl]
        rfl
      | false =>
        refine ⟨[], (c :: s) :: ss, by simp,
          List.forall_mem_cons.mpr ⟨⟨List.cons_ne_nil c s, hcs⟩, hss⟩, ?_⟩
        rw [hl]
        simp

/-- What the loops accept are the lists of printable strings. -/
theorem stringList_iff (l : List UInt8) : stringList l = true ↔ IsStringList l := by
  rw [stringList, Bool.and_eq_true, Bool.not_eq_true', List.isEmpty_eq_false_iff]
  constructor
  · rintro ⟨hne, h⟩
    obtain ⟨_, ss, _, hss, hl⟩ := exists_of_stringsFrom h
    refine ⟨ss, ?_, hss, hl⟩
    rintro rfl
    exact hne hl
  · rintro ⟨ss, hne, hss, rfl⟩
    refine ⟨?_, ?_⟩
    · cases ss with
      | nil => exact absurd rfl hne
      | cons s ss => simp
    · clear hne
      induction ss with
      | nil => rfl
      | cons s ss ih =>
        rw [List.forall_mem_cons] at hss
        rw [List.flatMap_cons, List.append_assoc, List.singleton_append,
          stringsFrom_string hss.1.2 hss.1.1]
        exact ih hss.2

/-- **Printable strings**: `util_is_printable_string` finds out whether the data are a list of
printable strings, and reads nothing else. -/
theorem utilIsPrintableString_iff (h : l <+: b.mem p) :
    ∃ r, utilIsPrintableString b p l.length = some r ∧ (r = true ↔ IsStringList l) :=
  ⟨stringList l, utilIsPrintableString_eq h, stringList_iff l⟩

/-- The block holds the strings `ok` and `no`, and a character behind them. -/
theorem utilIsPrintableString_ok :
    utilIsPrintableString ⟨0x1000, [111, 107, 0, 110, 111, 0, 33], by decide, by decide⟩ 0x1000 6 =
      some true := by
  obtain ⟨r, hr, hiff⟩ := utilIsPrintableString_iff (p := 0x1000) (l := [111, 107, 0, 110, 111, 0])
    (b := ⟨0x1000, [111, 107, 0, 110, 111, 0, 33], by decide, by decide⟩) (by decide)
  have hlist : IsStringList [111, 107, 0, 110, 111, 0] :=
    ⟨[[111, 107], [110, 111]], by decide, by simp [isprint], by decide⟩
  rw [hiff.mpr hlist] at hr
  exact hr

/-! ### Values -/

/-- There is a blank behind all but the last. -/
theorem blank_eq {c : Prop} [Decidable c] (hc : c ↔ l ≠ []) :
    (if c then [' '] else []) = if l = [] then [] else [' '] := by
  by_cases hl : l = []
  · rw [if_pos hl, if_neg fun h => hc.mp h hl]
  · rw [if_neg hl, if_pos (hc.mpr hl)]

/-- The cells of a value, printed one after the other. -/
theorem printCells_eq {len i : ℤ} (h : l <+: b.mem p) (hlen : len = i + l.length)
    (hl : l.length % 4 = 0) : printCells b len i p = some (renderCells l) := by
  fun_induction renderCells l generalizing i p with
  | case1 c₀ c₁ c₂ c₃ l ih =>
    simp only [List.length_cons] at hlen hl
    have hblank : i < len - 4 ↔ l ≠ [] := by
      rw [← List.length_pos_iff]
      omega
    have htail : l <+: b.mem (p + 4) := Block.prefix_mem_add (n := 4) h (by simp)
    have hrest : len = i + 4 + l.length := by omega
    rw [printCells, if_pos (by omega), getCell_of_mem h]
    simp only [Option.bind_eq_bind, Option.bind_some]
    rw [ih htail hrest (by omega), blank_eq hblank]
    rfl
  | case2 l hcons =>
    have hnil : l = [] := by
      by_contra hne
      obtain ⟨c₀, c₁, c₂, c₃, rest, hrest⟩ := exists_cell_of_ne_nil hl hne
      exact hcons c₀ c₁ c₂ c₃ rest hrest
    subst hnil
    rw [printCells, if_neg]
    simp [hlen]

/-- The bytes of a value, printed one after the other. -/
theorem printBytes_eq {len i : ℤ} (h : l <+: b.mem p) (hlen : len = i + l.length) :
    printBytes b len i p = some (renderBytes l) := by
  induction l generalizing i p with
  | nil =>
    rw [printBytes, if_neg]
    · rfl
    · simp [hlen]
  | cons c l ih =>
    rw [List.length_cons] at hlen
    have hblank : i < len - 1 ↔ l ≠ [] := by
      rw [← List.length_pos_iff]
      omega
    rw [printBytes, if_pos (by omega), byte_of_cons h, Option.bind_eq_bind, Option.bind_some,
      ih (prefix_mem_succ h) (by omega), Option.bind_eq_bind, Option.bind_some, blank_eq hblank]
    rfl

/-- Where strings end there is a NUL. -/
theorem zero_mem_of_stringList (h : stringList l) : 0 ∈ l := by
  obtain ⟨ss, hne, -, rfl⟩ := (stringList_iff l).mp h
  cases ss with
  | nil => exact absurd rfl hne
  | cons s ss => simp

/-- `print_data` never reads outside the value, and prints what `renderData` says. -/
theorem printData_eq (h : l <+: b.mem p) : printData b p l.length = some (renderData l) := by
  rw [printData, renderData]
  by_cases hl : l = []
  · rw [if_pos hl, if_pos (by simp [hl])]
  have hlen : ¬ (l.length : ℤ) = 0 := by simpa using hl
  have hmod : (l.length : ℤ).tmod 4 = 0 ↔ l.length % 4 = 0 := by
    rw [Int.tmod_eq_emod_of_nonneg (Int.natCast_nonneg _)]
    omega
  rw [if_neg hl, if_neg hlen, utilIsPrintableString_eq h, Option.bind_eq_bind, Option.bind_some]
  by_cases hs : stringList l
  · rw [if_pos hs, if_pos hs, cstring_of_mem h (zero_mem_of_stringList hs)]
    rfl
  · rw [if_neg hs, if_neg hs]
    by_cases hm : l.length % 4 = 0
    · rw [if_pos (hmod.mpr hm), if_pos hm, printCells_eq h (by omega) hm]
      rfl
    · rw [if_neg (mt hmod.mp hm), if_neg hm, printBytes_eq h (by omega)]
      rfl

/-! ### What a value can be read from -/

theorem length_hexPad_eight (x : UInt32) : (hexPad 8 x).length = 8 :=
  length_hexPad (by decide) x.toNat_lt

theorem length_hexPad_two (c : UInt8) : (hexPad 2 c.toUInt32).length = 2 := by
  apply length_hexPad (by decide)
  rw [UInt8.toNat_toUInt32]
  exact c.toNat_lt

/-- A cell is determined by its number. -/
theorem fdt32ToCpu_inj {c₀ c₁ c₂ c₃ d₀ d₁ d₂ d₃ : UInt8}
    (h : fdt32ToCpu c₀ c₁ c₂ c₃ = fdt32ToCpu d₀ d₁ d₂ d₃) :
    [c₀, c₁, c₂, c₃] = [d₀, d₁, d₂, d₃] := by
  refine BigEndian.eq_of_value_eq (by rfl) ?_
  have hlt : ∀ c₀ c₁ c₂ c₃, BigEndian.value [c₀, c₁, c₂, c₃] < 2 ^ 32 := fun c₀ c₁ c₂ c₃ => by
    have hlt := BigEndian.value_lt [c₀, c₁, c₂, c₃]
    simp only [List.length_cons, List.length_nil] at hlt
    omega
  rw [fdt32ToCpu, fdt32ToCpu, ← UInt32.toNat_inj, UInt32.toNat_ofNat', UInt32.toNat_ofNat',
    Nat.mod_eq_of_lt (hlt ..), Nat.mod_eq_of_lt (hlt ..)] at h
  exact h

/-- What comes behind an item, with the blank. -/
theorem blank_append_inj {s s' : List Char} (hs : l = [] → s = []) (hs' : l' = [] → s' = [])
    (h : (if l = [] then [] else [' ']) ++ s = (if l' = [] then [] else [' ']) ++ s') :
    (l = [] ↔ l' = []) ∧ s = s' := by
  by_cases hl : l = []
  · by_cases hl' : l' = []
    · exact ⟨iff_of_true hl hl', (hs hl).trans (hs' hl').symm⟩
    · rw [if_pos hl, if_neg hl', hs hl] at h
      cases h
  · by_cases hl' : l' = []
    · rw [if_neg hl, if_pos hl', hs' hl'] at h
      cases h
    · rw [if_neg hl, if_neg hl'] at h
      exact ⟨iff_of_false hl hl', (List.cons.inj h).2⟩

/-- The printed cells determine the cells: each takes eight digits. -/
theorem renderCells_inj (hl : l.length % 4 = 0) (hl' : l'.length % 4 = 0)
    (h : renderCells l = renderCells l') : l = l' := by
  induction hn : l.length using Nat.strong_induction_on generalizing l l' with
  | _ n ih =>
    by_cases hne : l = []
    · by_cases hne' : l' = []
      · rw [hne, hne']
      · obtain ⟨d₀, d₁, d₂, d₃, rest', rfl⟩ := exists_cell_of_ne_nil hl' hne'
        rw [hne] at h
        cases h
    obtain ⟨c₀, c₁, c₂, c₃, rest, rfl⟩ := exists_cell_of_ne_nil hl hne
    by_cases hne' : l' = []
    · rw [hne'] at h
      cases h
    obtain ⟨d₀, d₁, d₂, d₃, rest', rfl⟩ := exists_cell_of_ne_nil hl' hne'
    rw [renderCells, renderCells, List.append_assoc, List.append_assoc, List.append_assoc,
      List.append_assoc, List.append_cancel_left_eq] at h
    obtain ⟨hcell, hblank⟩ := List.append_inj h (by
      rw [length_hexPad_eight, length_hexPad_eight])
    obtain ⟨-, hrest⟩ := blank_append_inj (fun h => by rw [h]; rfl) (fun h => by rw [h]; rfl) hblank
    have hbytes := fdt32ToCpu_inj (hexPad_injective 8 hcell)
    simp only [List.length_cons] at hl hl' hn
    have hlist := ih rest.length (by omega) (by omega) (by omega) hrest rfl
    rw [hlist]
    exact congrArg (· ++ rest') hbytes

theorem renderBytes_cons_ne (c : UInt8) (l : List UInt8) : renderBytes (c :: l) ≠ [] := by
  intro h
  have hlen := congrArg List.length h
  rw [renderBytes, List.length_append, List.length_append, length_hexPad_two,
    List.length_nil] at hlen
  omega

/-- The printed bytes determine the bytes: each takes two digits. -/
theorem renderBytes_inj (h : renderBytes l = renderBytes l') : l = l' := by
  induction l generalizing l' with
  | nil =>
    cases l' with
    | nil => rfl
    | cons d l' => exact absurd h.symm (renderBytes_cons_ne d l')
  | cons c l ih =>
    cases l' with
    | nil => exact absurd h (renderBytes_cons_ne c l)
    | cons d l' =>
      rw [renderBytes, renderBytes, List.append_assoc, List.append_assoc] at h
      obtain ⟨hbyte, hblank⟩ := List.append_inj h (by
        rw [length_hexPad_two, length_hexPad_two])
      obtain ⟨-, hrest⟩ :=
        blank_append_inj (fun h => by rw [h]; rfl) (fun h => by rw [h]; rfl) hblank
      have hcd : c = d := by
        have h32 := congrArg UInt32.toNat (hexPad_injective 2 hbyte)
        rw [UInt8.toNat_toUInt32, UInt8.toNat_toUInt32] at h32
        exact UInt8.toNat_inj.mp h32
      rw [hcd, ih hrest]

theorem text_injective : Function.Injective text := by
  apply List.map_injective_iff.mpr
  intro c d h
  have hvalid : ∀ c : UInt8, (Char.ofNat c.toNat).toNat = c.toNat := fun c => by
    have hc := c.toNat_lt
    have hascii : c.toNat.isValidChar := Or.inl (by omega)
    rw [Char.ofNat, dif_pos hascii]
    rfl
  have htoNat := congrArg Char.toNat h
  rwa [hvalid, hvalid, UInt8.toNat_inj] at htoNat

/-- The bracket that a value is printed in. -/
def opening (l : List UInt8) : Char :=
  if stringList l then '"' else if l.length % 4 = 0 then '<' else '['

/-- What is printed behind the bracket. -/
def inner (l : List UInt8) : List Char :=
  if stringList l then text (l.takeWhile (· ≠ 0)) ++ ['"']
  else if l.length % 4 = 0 then renderCells l ++ ['>']
  else renderBytes l ++ [']']

/-- The text of a value that is not empty, with the character that tells its kind. -/
theorem renderData_of_ne_nil (hl : l ≠ []) :
    renderData l = " = ".toList ++ opening l :: inner l := by
  rw [renderData, if_neg hl, opening, inner]
  split_ifs
  · rfl
  · rfl
  · rfl

/-- A quote opens a list of strings. -/
theorem opening_eq_quote_iff : opening l = '"' ↔ stringList l := by
  rw [opening]
  split_ifs with hs hm
  · exact iff_of_true rfl hs
  · exact iff_of_false (by decide) hs
  · exact iff_of_false (by decide) hs

/-- An angle bracket opens a value of cells. -/
theorem opening_eq_lt_iff : opening l = '<' ↔ ¬ stringList l ∧ l.length % 4 = 0 := by
  rw [opening]
  split_ifs with hs hm
  · exact iff_of_false (by decide) fun h => h.1 hs
  · exact iff_of_true rfl ⟨hs, hm⟩
  · exact iff_of_false (by decide) fun h => hm h.2

/-- Values in the same bracket. -/
theorem eq_of_inner_eq (hopen : opening l = opening l') (h : inner l = inner l') :
    l = l' ∨ stringList l ∧ stringList l' ∧ l.takeWhile (· ≠ 0) = l'.takeWhile (· ≠ 0) := by
  have hquote : stringList l ↔ stringList l' := by
    rw [← opening_eq_quote_iff, hopen, opening_eq_quote_iff]
  have hlt : ¬ stringList l ∧ l.length % 4 = 0 ↔ ¬ stringList l' ∧ l'.length % 4 = 0 := by
    rw [← opening_eq_lt_iff, hopen, opening_eq_lt_iff]
  rw [inner, inner] at h
  by_cases hs : stringList l
  · rw [if_pos hs, if_pos (hquote.mp hs), List.append_cancel_right_eq] at h
    exact Or.inr ⟨hs, hquote.mp hs, text_injective h⟩
  have hs' : ¬ stringList l' := mt hquote.mpr hs
  rw [if_neg hs, if_neg hs'] at h
  by_cases hm : l.length % 4 = 0
  · have hm' := (hlt.mp ⟨hs, hm⟩).2
    rw [if_pos hm, if_pos hm', List.append_cancel_right_eq] at h
    exact Or.inl (renderCells_inj hm hm' h)
  · have hm' : ¬ l'.length % 4 = 0 := fun hm' => hm (hlt.mpr ⟨hs', hm'⟩).2
    rw [if_neg hm, if_neg hm', List.append_cancel_right_eq] at h
    exact Or.inl (renderBytes_inj h)

theorem ne_nil_of_stringList (h : stringList l) : l ≠ [] := by
  rintro rfl
  cases h

/-- **What the text for a value says**: all of the data, or the first of the strings. -/
theorem renderData_eq_iff :
    renderData l = renderData l' ↔
      l = l' ∨ stringList l ∧ stringList l' ∧ l.takeWhile (· ≠ 0) = l'.takeWhile (· ≠ 0) := by
  have hne : ∀ {l : List UInt8}, l ≠ [] → renderData l ≠ renderData [] := fun hl h => by
    rw [renderData_of_ne_nil hl] at h
    cases h
  constructor
  · intro h
    by_cases hl : l = []
    · by_cases hl' : l' = []
      · exact Or.inl (hl.trans hl'.symm)
      · rw [hl] at h
        exact absurd h.symm (hne hl')
    by_cases hl' : l' = []
    · rw [hl'] at h
      exact absurd h (hne hl)
    rw [renderData_of_ne_nil hl, renderData_of_ne_nil hl', List.append_cancel_left_eq] at h
    obtain ⟨hopen, hinner⟩ := List.cons.inj h
    exact eq_of_inner_eq hopen hinner
  · rintro (rfl | ⟨hs, hs', htake⟩)
    · rfl
    · rw [renderData, renderData, if_neg (ne_nil_of_stringList hs),
        if_neg (ne_nil_of_stringList hs'), if_pos hs, if_pos hs', htake]

/-- **Round trip**: the printed values of two properties are the same exactly if the values are, or
if both are lists of strings with the same first string. -/
theorem printData_eq_printData_iff {b' : Block} {p' : UInt32} (h : l <+: b.mem p)
    (h' : l' <+: b'.mem p') :
    printData b p l.length = printData b' p' l'.length ↔
      l = l' ∨ IsStringList l ∧ IsStringList l' ∧
        l.takeWhile (· ≠ 0) = l'.takeWhile (· ≠ 0) := by
  rw [printData_eq h, printData_eq h', Option.some.injEq, renderData_eq_iff, stringList_iff,
    stringList_iff]

/-- Two cells and three bytes. -/
theorem printData_eq_printData_cells :
    printData ⟨0x1000, [0, 0, 0, 1, 0, 0, 0, 2], by decide, by decide⟩ 0x1000 8 =
        printData ⟨0x2000, [1, 2, 3], by decide, by decide⟩ 0x2000 3 ↔
      ([0, 0, 0, 1, 0, 0, 0, 2] : List UInt8) = [1, 2, 3] ∨
        IsStringList [0, 0, 0, 1, 0, 0, 0, 2] ∧ IsStringList [1, 2, 3] ∧
          ([0, 0, 0, 1, 0, 0, 0, 2] : List UInt8).takeWhile (· ≠ 0) =
            ([1, 2, 3] : List UInt8).takeWhile (· ≠ 0) := by
  have h : ([0, 0, 0, 1, 0, 0, 0, 2] : List UInt8) <+:
      Block.mem ⟨0x1000, [0, 0, 0, 1, 0, 0, 0, 2], by decide, by decide⟩ 0x1000 := by decide
  have h' : ([1, 2, 3] : List UInt8) <+:
      Block.mem ⟨0x2000, [1, 2, 3], by decide, by decide⟩ 0x2000 := by decide
  exact printData_eq_printData_iff h h'

end Camkes.Fdtgen
