import Camkes.ReverseString.Equiv.Reverse
import Camkes.ReverseString.Process

/-!
# When the Reverse components reverse

`iProcess_iff`: a string of at most 2³¹ characters is reversed exactly when it has an odd length, or
the two characters in its middle are the same.  For longer strings `last_idx` wraps around.
-/

namespace Camkes.ReverseString

variable {ι ο α : Type} {s : List UInt8}

/-! ### The index of the last character -/

theorem rounds_eq (len : ℕ) : rounds len = (lastIdx len).toNat / 2 := by
  unfold rounds
  rcases Int.le_total 0 (lastIdx len) with hnonneg | hneg
  · rw [Int.tdiv_eq_ediv_of_nonneg hnonneg]
    omega
  · obtain ⟨n, hn⟩ := Int.eq_ofNat_of_zero_le (Int.neg_nonneg_of_nonpos hneg)
    have hidx : lastIdx len = -(n : ℤ) := by omega
    rw [hidx, Int.neg_tdiv, Int.tdiv_eq_ediv_of_nonneg (Int.natCast_nonneg n)]
    omega

theorem rounds_zero : rounds 0 = 0 := by decide

/-- `last_idx` is the length less one as an `int`, or counts as 0 where that is negative. -/
theorem lastIdx_wrapped {len : ℕ} (hpos : 0 < len) :
    (lastIdx len).toNat = if (len - 1) % 2 ^ 32 < 2 ^ 31 then (len - 1) % 2 ^ 32 else 0 := by
  unfold lastIdx
  rw [Int.bmod_def]
  split_ifs
  · omega
  · omega
  · omega
  · omega

theorem lastIdx_lt {len : ℕ} (hpos : 0 < len) : (lastIdx len).toNat < len := by
  rw [lastIdx_wrapped hpos]
  split_ifs
  · omega
  · exact hpos

theorem lastIdx_of_le {len : ℕ} (hpos : 0 < len) (hle : len ≤ 2 ^ 31) :
    (lastIdx len).toNat = len - 1 := by
  rw [lastIdx_wrapped hpos]
  split_ifs
  · omega
  · omega

/-! ### What is passed on -/

/-- What the loop makes of a string. -/
def processed (s : List UInt8) : List UInt8 :=
  mirrorSwaps s (lastIdx s.length).toNat (rounds s.length)

theorem executes_runOn {contents : List UInt8} {a : α} {m' : Fin contents.length → UInt8}
    {p : List (Fin contents.length) → Prog (Fin contents.length) UInt8 Unit α}
    {effs : List (Access (Fin contents.length) UInt8 Unit)}
    (h : Executes (p (List.finRange contents.length)) contents.get a m' effs) :
    runOn contents p = some a := by
  obtain ⟨log, hexec, -⟩ := h
  rw [runOn, hexec]
  rfl

theorem map_cells (contents : List UInt8) :
    (List.finRange contents.length).map contents.get = contents :=
  List.map_get_finRange contents

theorem lastIdx_lt_succ (len : ℕ) : (lastIdx len).toNat < len + 1 := by
  rcases Nat.eq_zero_or_pos len with rfl | hpos
  · decide
  · exact Nat.lt_succ_of_lt (lastIdx_lt hpos)

theorem two_mul_rounds_le (len : ℕ) : 2 * rounds len ≤ (lastIdx len).toNat + 1 := by
  rw [rounds_eq]
  omega

/-- The NUL stays where it is. -/
theorem mirrorSwaps_concat (s : List UInt8) :
    mirrorSwaps (s ++ [0]) (lastIdx s.length).toNat (rounds s.length) = processed s ++ [0] := by
  rcases Nat.eq_zero_or_pos s.length with hzero | hpos
  · obtain rfl := List.length_eq_zero_iff.mp hzero
    rfl
  · exact mirrorSwaps_append (lastIdx_lt hpos) (two_mul_rounds_le _) [0]

theorem zero_notMem_processed (hs : 0 ∉ s) : 0 ∉ processed s := by
  rcases Nat.eq_zero_or_pos s.length with hzero | hpos
  · obtain rfl := List.length_eq_zero_iff.mp hzero
    exact hs
  · exact fun h => hs (mem_of_mem_mirrorSwaps (lastIdx_lt hpos) (two_mul_rounds_le _) h)

/-- `i_process` never fails, and passes on what its loop makes of the string. -/
theorem process_eq (s : Str) : process s = some (processed s) := by
  obtain ⟨s, hs⟩ := s
  have hcells := map_cells (s ++ [0])
  have hread : CString.read ((List.finRange (s ++ [0]).length).map (s ++ [0]).get) = some s := by
    rw [hcells, CString.read_append_zero hs]
  obtain ⟨m', effs, hloop, -⟩ := Rewrites.swapLoop (ο := Unit) (m := (s ++ [0]).get)
    (List.nodup_finRange _) (lastIdx s.length).toNat (rounds s.length)
    (by simpa using lastIdx_lt_succ s.length) (by have := two_mul_rounds_le s.length; omega)
  rw [hcells, mirrorSwaps_concat] at hloop
  have hout : CString.read ((List.finRange (s ++ [0]).length).map m') = some (processed s) := by
    rw [hloop.contents, CString.read_append_zero (zero_notMem_processed hs)]
  exact executes_runOn (.bind_of_nil (.readString hread) (hloop.executes.bind (.readString hout)))

/-- The loop of the servers reverses every string up to the cap of `strnlen`. -/
theorem reversedIn_eq (hs : 0 ∉ s) (hle : s.length ≤ maxLen) (rest : List UInt8) :
    reversedIn (s ++ 0 :: rest) = some s.reverse := by
  have hcells := map_cells (s ++ 0 :: rest)
  obtain ⟨m', effs, hloop, -⟩ := rewrites_reverseInPlace (ο := Unit) (List.nodup_finRange _) hs
    hcells
  rw [List.take_of_length_le hle, List.drop_of_length_le hle, List.nil_append] at hloop
  have hout : CString.read ((List.finRange (s ++ 0 :: rest).length).map m') = some s.reverse := by
    rw [hloop.contents, CString.read_append_zero (by rwa [List.mem_reverse])]
  exact executes_runOn (hloop.executes.bind (.readString hout))

/-! ### When it is the reversal -/

/-- Where a string with more than 2³¹ characters has the character that ends up at index `k`: from
the length only the remainder `r` is left for `last_idx`, and from a large one a negative number. -/
def wrappedSource (r k : ℕ) : ℕ :=
  if r < 2 ^ 31 ∧ (k < r / 2 ∨ r - r / 2 < k ∧ k ≤ r) then r - k else k

/-- The two characters in the middle are the same, if there are two.  The other case is about
strings that are so long that `last_idx` wraps around. -/
def Mirrored (s : List UInt8) : Prop :=
  if s.length ≤ 2 ^ 31 then
    s.length % 2 = 1 ∨ s[s.length / 2 - 1]? = s[s.length / 2]?
  else
    ∀ k < s.length, s[wrappedSource ((s.length - 1) % 2 ^ 32) k]? = s[s.length - 1 - k]?

theorem mirror_wrapped {len : ℕ} (hpos : 0 < len) (k : ℕ) :
    mirror (lastIdx len).toNat (rounds len) k = wrappedSource ((len - 1) % 2 ^ 32) k := by
  rw [rounds_eq, lastIdx_wrapped hpos]
  unfold mirror wrappedSource
  split_ifs
  all_goals omega

/-- When the loop has reversed the string. -/
theorem processed_eq_reverse_iff (s : List UInt8) : processed s = s.reverse ↔ Mirrored s := by
  rcases Nat.eq_zero_or_pos s.length with hzero | hpos
  · obtain rfl := List.length_eq_zero_iff.mp hzero
    simp [processed, Mirrored, rounds_zero]
  have hiff := mirrorSwaps_eq_reverse_iff (lastIdx_lt hpos) (two_mul_rounds_le s.length)
  rw [processed, hiff, Mirrored]
  split_ifs with hle
  · rw [rounds_eq, lastIdx_of_le hpos hle]
    constructor
    · intro h
      rcases Nat.mod_two_eq_zero_or_one s.length with heven | hodd
      · -- the loop leaves out the left one of the two characters in the middle
        have hmid := h (s.length / 2 - 1) (by omega)
        have hmirror : mirror (s.length - 1) ((s.length - 1) / 2) (s.length / 2 - 1) =
            s.length / 2 - 1 := by
          unfold mirror
          split_ifs
          · omega
          · rfl
        have hother : s.length - 1 - (s.length / 2 - 1) = s.length / 2 := by omega
        rw [hmirror, hother] at hmid
        exact Or.inr hmid
      · exact Or.inl hodd
    · intro h k hk
      unfold mirror
      split_ifs
      · rfl
      · rcases h with hodd | hmid
        · congr 1
          omega
        · have hk' : k = s.length - 1 - k ∨
              (k = s.length / 2 - 1 ∧ s.length - 1 - k = s.length / 2) ∨
              (k = s.length / 2 ∧ s.length - 1 - k = s.length / 2 - 1) := by omega
          rcases hk' with heq | ⟨hleft, hright⟩ | ⟨hright, hleft⟩
          · rw [← heq]
          · rw [hright, hleft, hmid]
          · rw [hleft, hright, hmid]
  · simp only [mirror_wrapped hpos]

/-- The component passes on what the loop of a server makes of its argument. -/
def AgreesWith (iProcess : Str → Option (List UInt8))
    (reversedIn : List UInt8 → Option (List UInt8)) (s : Str) : Prop :=
  ∀ rest, (s.val ++ 0 :: rest).length = bufSize → iProcess s = reversedIn (s.val ++ 0 :: rest)

/-- When `i_process` passes on the reversal of its argument. -/
theorem process_eq_reverse_iff (s : Str) : process s = some s.val.reverse ↔ Mirrored s := by
  rw [process_eq, Option.some_inj, processed_eq_reverse_iff]

/-- When `i_process` and the servers make the same of a string. -/
theorem agreesWith_iff (s : Str) (hle : s.val.length ≤ maxLen) :
    AgreesWith process reversedIn s ↔ Mirrored s := by
  rw [← process_eq_reverse_iff]
  constructor
  · intro h
    have hfill : (s.val ++ 0 :: List.replicate (bufSize - s.val.length - 1) 0).length =
        bufSize := by
      have hmax : maxLen < bufSize := by decide
      rw [List.length_append, List.length_cons, List.length_replicate]
      omega
    rw [h _ hfill, reversedIn_eq s.property hle]
  · intro h rest _
    rw [h, reversedIn_eq s.property hle]

/-- **The Reverse components** reverse their argument exactly when it is `Mirrored`, and so do they
agree with the servers. -/
theorem iProcess_iff (s : Str) :
    (HierarchicalComponents.iProcess s = some s.val.reverse ↔ Mirrored s) ∧
      (Multiassembly.iProcess s = some s.val.reverse ↔ Mirrored s) ∧
      (s.val.length ≤ maxLen →
        (AgreesWith HierarchicalComponents.iProcess Reversestring.reversedIn s ↔ Mirrored s) ∧
        (AgreesWith HierarchicalComponents.iProcess RumprunEthernet.reversedIn s ↔ Mirrored s) ∧
        (AgreesWith Multiassembly.iProcess Reversestring.reversedIn s ↔ Mirrored s) ∧
        (AgreesWith Multiassembly.iProcess RumprunEthernet.reversedIn s ↔ Mirrored s)) := by
  refine ⟨process_eq_reverse_iff s, process_eq_reverse_iff s, fun hle => ?_⟩
  have hagrees := agreesWith_iff s hle
  exact ⟨hagrees, hagrees, hagrees, hagrees⟩

/-- The string "ab". -/
def ab : Str := ⟨[97, 98], by decide⟩

/-- The two characters of "ab" are not swapped. -/
theorem iProcess_ab :
    HierarchicalComponents.iProcess ab ≠ some ab.val.reverse ∧
      Multiassembly.iProcess ab ≠ some ab.val.reverse ∧
      ¬ AgreesWith HierarchicalComponents.iProcess Reversestring.reversedIn ab := by
  have hab : ¬ Mirrored ab.val := by
    simp [Mirrored, ab]
  have hprocess := (process_eq_reverse_iff ab).not.mpr hab
  exact ⟨hprocess, hprocess, (agreesWith_iff ab (by decide)).not.mpr hab⟩

end Camkes.ReverseString
