import Camkes.Data.Sentinel
import Mathlib.Data.List.Basic

/-!
# C strings in memory

`CString.read mem` is the string that a pointer to the readable bytes `mem` denotes: the bytes
before the first NUL.  It is `none` when there is no NUL, as the reader then runs off the end.

`CString.strncpy src` are the bytes that `strncpy(dest, src, n)` writes, where `src` are the `n`
bytes at its source: the string there, filled up with NULs.
-/

namespace Camkes.CString

variable {s mem : List UInt8}

/-- The string at the beginning of memory that may be read; without a NUL the read runs out of it.
-/
def read (mem : List UInt8) : Option (List UInt8) :=
  if 0 ∈ mem then some (mem.takeWhile (· ≠ 0)) else none

@[simp] theorem read_nil : read [] = none := rfl

theorem read_cons_zero (mem : List UInt8) : read (0 :: mem) = some [] :=
  if_pos (List.mem_cons_self ..)

theorem read_cons_of_ne {c : UInt8} (hc : c ≠ 0) (mem : List UInt8) :
    read (c :: mem) = (read mem).map (c :: ·) := by
  have hmem : 0 ∈ c :: mem ↔ 0 ∈ mem := by
    rw [List.mem_cons]
    exact or_iff_right (Ne.symm hc)
  unfold read
  rw [if_congr hmem rfl rfl]
  split_ifs
  · rw [Option.map_some, List.takeWhile_cons_of_pos (by simpa using hc)]
  · rfl

/-- Bytes without a NUL are read along with the string behind them. -/
theorem read_append (h : 0 ∉ s) (mem : List UInt8) : read (s ++ mem) = (read mem).map (s ++ ·) := by
  induction s with
  | nil => simp
  | cons c s ih =>
    rw [List.mem_cons, not_or] at h
    rw [List.cons_append, read_cons_of_ne (Ne.symm h.1), ih h.2, Option.map_map]
    rfl

/-- A string ends at the first NUL. -/
theorem read_append_zero (h : 0 ∉ s) (mem : List UInt8) : read (s ++ 0 :: mem) = some s := by
  rw [read_append h, read_cons_zero, Option.map_some, List.append_nil]

/-- The string `s` in front of NULs is read back if it has no NUL itself. -/
theorem read_append_replicate_iff (s : List UInt8) (m : ℕ) :
    read (s ++ List.replicate m 0) = some s ↔ 0 ∉ s ∧ 0 < m := by
  by_cases hmem : 0 ∈ s
  · obtain ⟨s', rest, rfl, hs'⟩ := List.eq_append_cons_of_mem hmem
    rw [List.append_assoc, List.cons_append, read_append_zero hs']
    simp
  · rw [read_append hmem]
    cases m with
    | zero => simp
    | succ m => simp [List.replicate_succ, read_cons_zero, hmem]

/-- What is read of bytes in front of NULs. -/
theorem read_append_replicate (s : List UInt8) (m : ℕ) :
    read (s ++ List.replicate m 0) =
      if 0 ∈ s ∨ 0 < m then some (s.takeWhile (· ≠ 0)) else none := by
  by_cases hmem : 0 ∈ s
  · obtain ⟨s', rest, rfl, hs'⟩ := List.eq_append_cons_of_mem hmem
    rw [List.append_assoc, List.cons_append, read_append_zero hs', if_pos (.inl hmem),
      Sentinel.takeWhile_append_cons hs']
  · rw [read_append hmem, Sentinel.takeWhile_of_notMem hmem]
    cases m with
    | zero => simp [hmem]
    | succ m => simp [List.replicate_succ, read_cons_zero]

/-- The empty string is a NUL. -/
theorem read_eq_some_nil_iff : read mem = some [] ↔ mem.head? = some 0 := by
  cases mem with
  | nil => simp
  | cons c mem =>
    by_cases hc : c = 0
    · rw [hc, read_cons_zero]
      simp
    · rw [read_cons_of_ne hc]
      simp [hc]

/-! ### Copying with a length -/

/-- What `strncpy` writes when it copies as many bytes as the source has. -/
def strncpy (src : List UInt8) : List UInt8 := (src.takeWhile (· ≠ 0)).rightpad src.length 0

theorem length_strncpy (src : List UInt8) : (strncpy src).length = src.length := by
  have hle : (src.takeWhile (· ≠ 0)).length ≤ src.length := (List.takeWhile_prefix _).length_le
  rw [strncpy, List.length_rightpad]
  omega

theorem strncpy_of_notMem {src : List UInt8} (h : 0 ∉ src) : strncpy src = src := by
  rw [strncpy, Sentinel.takeWhile_of_notMem h, List.rightpad, Nat.sub_self, List.replicate_zero,
    List.append_nil]

theorem strncpy_append_zero (h : 0 ∉ s) (rest : List UInt8) :
    strncpy (s ++ 0 :: rest) = s ++ List.replicate (rest.length + 1) 0 := by
  rw [strncpy, Sentinel.takeWhile_append_cons h, List.rightpad, List.length_append,
    List.length_cons, Nat.add_sub_cancel_left]

/-- What `strncpy` leaves in front of NULs is the string that it copied. -/
theorem read_strncpy_append (src : List UInt8) (m : ℕ) :
    read (strncpy src ++ List.replicate m 0) = read (src ++ List.replicate m 0) := by
  by_cases hmem : 0 ∈ src
  · obtain ⟨s, rest, rfl, hs⟩ := List.eq_append_cons_of_mem hmem
    rw [strncpy_append_zero hs, List.append_assoc, List.replicate_succ, List.cons_append,
      read_append_zero hs, List.append_assoc, List.cons_append, read_append_zero hs]
  · rw [strncpy_of_notMem hmem]

/-- Behind the first NUL there are only NULs. -/
def NulLast (src : List UInt8) : Prop := ∀ c ∈ src.dropWhile (· ≠ 0), c = 0

instance (src : List UInt8) : Decidable (NulLast src) := inferInstanceAs (Decidable (∀ _ ∈ _, _))

/-- All bytes are copied exactly when none but NULs are behind a NUL. -/
theorem strncpy_eq_self_iff (src : List UInt8) : strncpy src = src ↔ NulLast src := by
  have hsplit : src.takeWhile (· ≠ 0) ++ src.dropWhile (· ≠ 0) = src :=
    List.takeWhile_append_dropWhile
  have hlen : src.length - (src.takeWhile (· ≠ 0)).length = (src.dropWhile (· ≠ 0)).length := by
    have hsum := congrArg List.length hsplit
    rw [List.length_append] at hsum
    omega
  have hpad : strncpy src =
      src.takeWhile (· ≠ 0) ++ List.replicate (src.dropWhile (· ≠ 0)).length 0 := by
    rw [strncpy, List.rightpad, hlen]
  calc strncpy src = src
      ↔ strncpy src = src.takeWhile (· ≠ 0) ++ src.dropWhile (· ≠ 0) := by rw [hsplit]
    _ ↔ src.dropWhile (· ≠ 0) = List.replicate (src.dropWhile (· ≠ 0)).length 0 := by
        rw [hpad, List.append_cancel_left_eq, eq_comm]
    _ ↔ NulLast src := List.eq_replicate_length

/-- What has been copied begins with all of the source only if nothing was cut off. -/
theorem eq_take_strncpy_iff (src : List UInt8) {k : ℕ} (hk : k ≤ src.length) :
    src = (strncpy src).take k ↔ k = src.length ∧ NulLast src := by
  rw [← strncpy_eq_self_iff]
  constructor
  · intro h
    have hlen := congrArg List.length h
    rw [List.length_take, length_strncpy] at hlen
    have hfull : k = src.length := by omega
    rw [List.take_of_length_le (by rw [length_strncpy]; omega)] at h
    exact ⟨hfull, h.symm⟩
  · rintro ⟨rfl, h⟩
    rw [h, List.take_length]

end Camkes.CString
