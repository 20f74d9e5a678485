import Camkes.ReverseString.Basic

/-!
# What the loop of the servers does

`rewrites_reverseInPlace`: it reverses the string in the buffer, as far as `strnlen` has counted it.
-/

namespace Camkes.ReverseString

variable {ι ο : Type} [DecidableEq ι] {m : ι → UInt8} {buf : List ι} {s rest : List UInt8}

/-- `strnlen` counts the string up to its cap. -/
theorem takeWhile_take (hs : 0 ∉ s) (n : ℕ) :
    ((s ++ 0 :: rest).take n).takeWhile (· ≠ 0) = s.take n := by
  rcases Nat.lt_or_ge s.length n with hn | hn
  · obtain ⟨k, hk⟩ : ∃ k, n - s.length = k + 1 := ⟨n - s.length - 1, by omega⟩
    rw [List.take_append, List.take_of_length_le (Nat.le_of_lt hn), hk, List.take_succ_cons,
      Sentinel.takeWhile_append_cons hs]
  · rw [List.take_append_of_le_length hn, Sentinel.takeWhile_of_notMem]
    exact fun h => hs (List.mem_of_mem_take h)

/-- **The loop** reverses the string in the buffer, or its first `maxLen` characters if it is
longer, and stores only there. -/
theorem rewrites_reverseInPlace (hnodup : buf.Nodup) (hs : 0 ∉ s)
    (hbuf : buf.map m = s ++ 0 :: rest) :
    ∃ m' effs, Rewrites (ο := ο) buf (reverseInPlace buf) m ()
        ((s.take maxLen).reverse ++ (s.drop maxLen ++ 0 :: rest)) m' effs ∧
      effs.length = 2 * (min maxLen s.length / 2) ∧
      WritesTo (buf.take (min maxLen s.length)) effs := by
  have hbufLen := congrArg List.length hbuf
  rw [List.length_map, List.length_append, List.length_cons] at hbufLen
  have hlen : (s.take maxLen).length = min maxLen s.length := List.length_take
  have hsplit : buf.map m = s.take maxLen ++ (s.drop maxLen ++ 0 :: rest) := by
    rw [hbuf, ← List.append_assoc, List.take_append_drop]
  have hstrnlen : Executes (ο := ο) (Prog.strnlen (buf.take maxLen)) m (min maxLen s.length) m
      [] := by
    have hcount := Executes.strnlen (ο := ο) m (buf.take maxLen)
    rwa [List.map_take, hbuf, takeWhile_take hs, hlen] at hcount
  obtain ⟨m', effs, hloop, hcount, hwrites⟩ := Rewrites.swapLoop (ο := ο) (m := m) hnodup
    (min maxLen s.length - 1) (min maxLen s.length / 2) (by omega) (by omega)
  rw [hsplit, ← hlen, mirrorSwaps_half, hlen] at hloop
  refine ⟨m', effs, ?_, hcount, ?_⟩
  · exact ⟨.bind_of_nil hstrnlen hloop.executes, hloop.contents, hloop.frame⟩
  · rcases Nat.eq_zero_or_pos (min maxLen s.length) with hzero | hpos
    · rw [hzero] at hcount
      obtain rfl := List.length_eq_zero_iff.mp hcount
      intro a ha
      cases ha
    · rwa [Nat.sub_add_cancel hpos] at hwrites

/-- A string that fits is stored with its NUL. -/
theorem exists_rewrites_snprintf (hnodup : buf.Nodup) {n : ℕ} (hn : s.length < n)
    (hbuf : s.length < buf.length) :
    ∃ m', Rewrites (ο := ο) buf (snprintf buf n s) m ()
      (s ++ 0 :: (buf.map m).drop (s.length + 1)) m'
      ((buf.zip (s ++ [0])).map fun x => .write x.1 x.2) := by
  have hlength : (s ++ [0]).length = s.length + 1 := List.length_append
  have hle : (s ++ [0]).length ≤ buf.length := by omega
  obtain ⟨m', h⟩ := Rewrites.storeAll (ο := ο) (m := m) hnodup hle
  rw [hlength, List.append_assoc, List.singleton_append] at h
  refine ⟨m', ?_⟩
  rwa [snprintf, if_neg (by omega), List.take_of_length_le (by omega)]

theorem executes_printString (hs : 0 ∉ s) (hbuf : buf.map m = s ++ 0 :: rest) :
    Executes (printString buf) m () m [.output s] := by
  refine .bind_of_nil (.readString ?_) (.output (.done _ _))
  rw [hbuf, CString.read_append_zero hs]

/-- **A server** prints the string in the buffer and reverses it, or its first `maxLen`
characters. -/
theorem rewrites_serve (hnodup : buf.Nodup) (hs : 0 ∉ s) (hbuf : buf.map m = s ++ 0 :: rest) :
    ∃ m' effs, Rewrites buf (serve buf) m ()
        ((s.take maxLen).reverse ++ (s.drop maxLen ++ 0 :: rest)) m' (.output s :: effs) ∧
      effs.length = 2 * (min maxLen s.length / 2) ∧
      WritesTo (buf.take (min maxLen s.length)) effs := by
  obtain ⟨m', effs, hloop, hcount, hwrites⟩ := rewrites_reverseInPlace hnodup hs hbuf
  have hserve : Rewrites buf (serve buf) m () _ m' ([.output s] ++ effs) :=
    ((executes_printString hs hbuf).rewrites buf).bind hloop
  exact ⟨m', effs, hserve, hcount, hwrites⟩

end Camkes.ReverseString
