import Camkes.CakemlRegex.NullTerminated
import Camkes.Data.Sentinel

/-!
# Where the filter cuts a string

`nullIndex` and `nullIndexW` are searches with an increasing index, so they find the first NUL, and
both cuts are `Sentinel.cut` (`explode_cutAtNull`, `cutAtNullW_eq_cut`).  A byte and its character
are NUL together, hence the two versions agree.
-/

namespace Camkes.CakemlRegex

open Sentinel

theorem seg_zero {α : Type*} (m : ℕ) (l : List α) : seg m 0 l = l.take m := by
  induction m generalizing l with
  | zero => rw [List.take_zero, seg]
  | succ m ih =>
    cases l with
    | nil => rw [List.take_nil, seg]
    | cons x l => rw [List.take_succ_cons, seg, ih]

/-! ### Strings -/

theorem isSearch_nullIndex (s : MlString) : IsSearch nul s.explode (nullIndex s) :=
  .of_rec fun n => by
    rw [nullIndex]
    rfl

/-- A string is terminated exactly if it has a NUL. -/
theorem nullTerminated_iff (s : MlString) : NullTerminated s ↔ nul ∈ s.explode :=
  (isSearch_nullIndex s).exists_eq_some_iff

instance (s : MlString) : Decidable (NullTerminated s) := decidable_of_iff' _ (nullTerminated_iff s)

/-- A string is cut after its first NUL. -/
theorem explode_cutAtNull (s : MlString) : (cutAtNull s).explode = cut nul s.explode := by
  unfold cutAtNull
  cases hm : nullIndex s 0 with
  | none => exact (isSearch_nullIndex s).append_eq_cut hm
  | some m =>
    have hlt : m < s.explode.length :=
      (List.getElem?_eq_some_iff.mp (((isSearch_nullIndex s).eq_some_iff 0 m).mp hm).1.2).1
    -- the NUL is part of the substring
    show (s.substring 0 (m + 1)).explode = _
    rw [MlString.substring, if_pos (by omega), seg_zero]
    exact (isSearch_nullIndex s).take_succ_eq_cut hm

/-- Two strings are cut to the same exactly if their lists are. -/
theorem cutAtNull_eq_iff (s t : MlString) :
    cutAtNull s = cutAtNull t ↔ cut nul s.explode = cut nul t.explode := by
  rw [MlString.mk.injEq, explode_cutAtNull, explode_cutAtNull]

/-- **Cutting at NUL**: the search finds the first NUL from its index on, and the cut is the string
before its first NUL with one NUL behind it; a null terminated string is cut as before when
another is appended. -/
theorem cutAtNull_spec (s : MlString) :
    (∀ n m, nullIndex s n = some m ↔ IsLeast {i | n ≤ i ∧ s.explode[i]? = some nul} m) ∧
      (∀ n, nullIndex s n = none ↔ ∀ i, n ≤ i → s.explode[i]? ≠ some nul) ∧
      (cutAtNull s).explode = s.explode.takeWhile (· ≠ nul) ++ [nul] ∧
      cutAtNull (cutAtNull s) = cutAtNull s ∧
      (cutAtNull s).explode.count nul = 1 ∧ (cutAtNull s).explode.getLast? = some nul ∧
      (NullTerminated s → ∀ t, cutAtNull (s.strcat t) = cutAtNull s) := by
  refine ⟨(isSearch_nullIndex s).eq_some_iff, fun n => ?_, explode_cutAtNull s, ?_, ?_, ?_, ?_⟩
  · rw [(isSearch_nullIndex s).eq_none_iff, Set.eq_empty_iff_forall_notMem]
    exact forall_congr' fun i => not_and
  · rw [cutAtNull_eq_iff, explode_cutAtNull, cut_cut]
  · rw [explode_cutAtNull, count_cut]
  · rw [explode_cutAtNull, getLast?_cut]
  · intro hnull t
    rw [cutAtNull_eq_iff]
    exact cut_append_of_mem ((nullTerminated_iff s).mp hnull) t.explode

theorem cutAtNull_letter :
    cutAtNull (MlString.strcat ⟨[chr 97 (by decide), nul]⟩ (MlString.str (chr 98 (by decide)))) =
      cutAtNull ⟨[chr 97 (by decide), nul]⟩ :=
  (cutAtNull_spec ⟨[chr 97 (by decide), nul]⟩).2.2.2.2.2.2 (by decide) _

/-! ### Lists of bytes -/

theorem charOfWord_eq_nul (w : UInt8) (h : charOfWord w = charOfWord 0) : w = 0 :=
  UInt8.toNat_inj.mp (congrArg HolChar.ord h)

theorem wordOfChar_charOfWord (w : UInt8) : wordOfChar (charOfWord w) = w :=
  UInt8.ofNat_toNat

theorem bytes_chars (l : List UInt8) : bytes (chars l) = l := by
  unfold bytes chars
  rw [List.map_map]
  exact (List.map_congr_left fun w _ => wordOfChar_charOfWord w).trans l.map_id

theorem isSearch_nullIndexW (l : List UInt8) : IsSearch 0 l (nullIndexW l) :=
  .of_rec fun n => by
    rw [nullIndexW]

/-- `cut_at_null_w` cuts after the first NUL, or appends one. -/
theorem cutAtNullW_eq_cut (l : List UInt8) : cutAtNullW l = cut 0 l := by
  unfold cutAtNullW
  cases hm : nullIndexW l 0 with
  | none => exact (isSearch_nullIndexW l).append_eq_cut hm
  | some m =>
    show seg (m + 1) 0 l = _
    rw [seg_zero]
    exact (isSearch_nullIndexW l).take_succ_eq_cut hm

/-- The search in the bytes is one in their characters. -/
theorem nullIndexW_eq_nullIndex (l : List UInt8) : nullIndexW l = nullIndex (chars l) :=
  ((isSearch_nullIndexW l).map charOfWord_eq_nul).unique (isSearch_nullIndex (chars l))

theorem cutAtNull_chars (l : List UInt8) : cutAtNull (chars l) = chars (cutAtNullW l) := by
  have hmap := map_cut charOfWord_eq_nul l
  rw [← cutAtNullW_eq_cut] at hmap
  rw [MlString.mk.injEq, explode_cutAtNull]
  exact hmap.symm

/-- **The byte version** of each function agrees with the one on strings. -/
theorem nullIndexW_cutAtNullW_spec (l : List UInt8) :
    (∀ n, nullIndexW l n = nullIndex (chars l) n) ∧
      cutAtNull (chars l) = chars (cutAtNullW l) ∧
      cutAtNullW l = bytes (cutAtNull (chars l)) ∧
      (NullTerminatedW l ↔ NullTerminated (chars l)) := by
  refine ⟨congrFun (nullIndexW_eq_nullIndex l), cutAtNull_chars l, ?_, ?_⟩
  · rw [cutAtNull_chars, bytes_chars]
  · rw [NullTerminatedW, NullTerminated, nullIndexW_eq_nullIndex]

end Camkes.CakemlRegex
