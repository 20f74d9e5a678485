import Camkes.ReverseString.Equiv.Reverse
import Camkes.ReverseString.TcpServer

/-!
# A round of the TCP server
-/

namespace Camkes.ReverseString.TcpServer

open Threads CArray

/-! ### The buffers -/

theorem length_bufferStr : bufferStr.length = bufSize := by
  rw [bufferStr, List.length_map, List.length_finRange]

theorem nodup_bufferStr : bufferStr.Nodup :=
  (List.nodup_finRange bufSize).map fun _ _ h => Cell.byte.inj h

theorem ev_notMem : .ev ∉ bufferStr := by
  intro h
  obtain ⟨i, -, hi⟩ := List.mem_map.mp h
  cases hi

theorem ev1_notMem : .ev1 ∉ bufferStr := by
  intro h
  obtain ⟨i, -, hi⟩ := List.mem_map.mp h
  cases hi

/-! ### The format string -/

variable {fmt s : List UInt8}

theorem format_cons_of_ne {c : UInt8} (hc : c ≠ percent) (fmt : List UInt8) :
    format (c :: fmt) = (format fmt).map (c :: ·) := by
  cases fmt with
  | nil => simp [format, hc]
  | cons d fmt => rw [format, if_neg hc]

theorem format_of_notMem (h : percent ∉ fmt) : format fmt = some fmt := by
  induction fmt with
  | nil => rfl
  | cons c fmt ih =>
    rw [List.mem_cons, not_or] at h
    rw [format_cons_of_ne (Ne.symm h.1), ih h.2, Option.map_some]

/-- The format string is empty, or begins with a character or with `%%`. -/
theorem format_cases (h : format fmt = some s) :
    (fmt = [] ∧ s = []) ∨
      (∃ c fmt' s', c ≠ percent ∧ fmt = c :: fmt' ∧ s = c :: s' ∧ format fmt' = some s') ∨
      ∃ fmt' s', fmt = percent :: percent :: fmt' ∧ s = percent :: s' ∧ format fmt' = some s' := by
  cases fmt with
  | nil => exact Or.inl ⟨rfl, (Option.some.inj h).symm⟩
  | cons c fmt =>
    by_cases hc : c = percent
    · subst hc
      cases fmt with
      | nil => cases h
      | cons d fmt =>
        rw [format, if_pos rfl] at h
        split_ifs at h with hd
        obtain ⟨s', hs', rfl⟩ := Option.map_eq_some_iff.mp h
        exact Or.inr (Or.inr ⟨fmt, s', by rw [hd], rfl, hs'⟩)
    · rw [format_cons_of_ne hc] at h
      obtain ⟨s', hs', rfl⟩ := Option.map_eq_some_iff.mp h
      exact Or.inr (Or.inl ⟨c, fmt, s', hc, rfl, rfl, hs'⟩)

/-- A conversion prints less than itself. -/
theorem length_format (h : format fmt = some s) :
    s.length ≤ fmt.length ∧ (percent ∈ fmt → s.length < fmt.length) := by
  induction s generalizing fmt with
  | nil =>
    rcases format_cases h with ⟨rfl, -⟩ | ⟨c, fmt', s', -, -, hs, -⟩ | ⟨fmt', s', -, hs, -⟩
    · simp
    · cases hs
    · cases hs
  | cons c s ih =>
    rcases format_cases h with ⟨-, hs⟩ | ⟨c', fmt', s', hc, rfl, hs, h'⟩ | ⟨fmt', s', rfl, hs, h'⟩
    · cases hs
    · obtain ⟨rfl, rfl⟩ := List.cons.inj hs
      obtain ⟨hle, hlt⟩ := ih h'
      refine ⟨Nat.succ_le_succ hle, fun hmem => Nat.succ_lt_succ (hlt ?_)⟩
      exact (List.mem_cons.mp hmem).resolve_left (Ne.symm hc)
    · obtain ⟨rfl, rfl⟩ := List.cons.inj hs
      have hle := (ih h').1
      simp only [List.length_cons]
      omega

/-- Formatting makes no new characters. -/
theorem mem_of_mem_format (h : format fmt = some s) {d : UInt8} (hd : d ∈ s) : d ∈ fmt := by
  induction s generalizing fmt with
  | nil => cases hd
  | cons c s ih =>
    rcases format_cases h with ⟨-, hs⟩ | ⟨c', fmt', s', -, rfl, hs, h'⟩ | ⟨fmt', s', rfl, hs, h'⟩
    · cases hs
    · obtain ⟨rfl, rfl⟩ := List.cons.inj hs
      rcases List.mem_cons.mp hd with rfl | hd
      · exact List.mem_cons_self ..
      · exact List.mem_cons_of_mem _ (ih h' hd)
    · obtain ⟨rfl, rfl⟩ := List.cons.inj hs
      rcases List.mem_cons.mp hd with rfl | hd
      · exact List.mem_cons_self ..
      · exact List.mem_cons_of_mem _ (List.mem_cons_of_mem _ (ih h' hd))

/-! ### Preparing a chunk -/

/-- A chunk without a NUL that leaves room for one is the format string. -/
theorem prepare_of_lt (buf : Buf) {bytes : List UInt8} (hlt : bytes.length < bufSize)
    (hzero : 0 ∉ bytes) :
    ∃ buf', prepare buf bytes = (format bytes).map (buf', ·) := by
  obtain ⟨buf₁, hcopy, hlist⟩ := memcpy_eq_some buf hlt.le
  have hstore := store_of_lt buf₁ hlt 0
  refine ⟨buf₁.set bytes.length 0 hlt, ?_⟩
  have hread : CString.read (buf₁.set bytes.length 0 hlt).toList = some bytes := by
    obtain ⟨c, rest, hrest⟩ : ∃ c rest, buf.toList.drop bytes.length = c :: rest := by
      refine List.exists_cons_of_ne_nil fun hnil => ?_
      have hle := List.drop_eq_nil_iff.mp hnil
      rw [Vector.length_toList] at hle
      omega
    rw [Vector.toList_set, hlist, hrest, List.set_append_right _ _ (Nat.le_refl _), Nat.sub_self]
    exact CString.read_append_zero hzero rest
  simp only [prepare, hcopy, hstore, hread, Option.bind_eq_bind, Option.bind_some]
  cases format bytes with
  | none => rfl
  | some s => rfl

/-- A full chunk is out of bounds: its NUL is stored behind the buffer. -/
theorem prepare_of_full (buf : Buf) {bytes : List UInt8} (hfull : bytes.length = bufSize) :
    prepare buf bytes = none := by
  obtain ⟨buf₁, hcopy, -⟩ := memcpy_eq_some buf hfull.le
  have hstore : store buf₁ bytes.length 0 = none := dif_neg (by omega)
  simp only [prepare, hcopy, hstore, Option.bind_eq_bind, Option.bind_some, Option.bind_none]

end Camkes.ReverseString.TcpServer
