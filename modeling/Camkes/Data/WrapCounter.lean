import Mathlib.Data.List.Chain
import Mathlib.Data.List.Nodup
import Mathlib.Tactic.Common

/-!
# Counters that wrap around

A counter modulo `n` that is read from time to time is at ever larger positions, of which only the
remainders are seen.  `Advances d ps` says that each of the positions `ps` is from 1 to `d` after
the one before.  The first and the last of `k` such positions are less than `k * d` apart, so as
long as this does not exceed `n` what is seen of them is distinct (`Advances.nodup_map`).
-/

namespace Camkes

variable {d n p : ℕ} {ps qs : List ℕ}

/-- Each position is from 1 to `d` after the one before. -/
def Advances (d : ℕ) (ps : List ℕ) : Prop := ps.IsChain fun p q => p < q ∧ q ≤ p + d

theorem advances_nil (d : ℕ) : Advances d [] := List.IsChain.nil

/-- Any consecutive positions advance. -/
theorem Advances.window (h : Advances d ps) (hqs : qs <:+: ps) : Advances d qs :=
  List.IsChain.infix h hqs

/-- The next position comes after the last one. -/
theorem Advances.concat (h : Advances d ps) (hp : ∀ q ∈ ps.getLast?, q < p ∧ p ≤ q + d) :
    Advances d (ps ++ [p]) := by
  refine List.isChain_append.mpr ⟨h, List.IsChain.singleton _, ?_⟩
  intro q hq r hr
  obtain rfl := Option.some.inj hr
  exact hp q hq

/-- How far a position is from the first one. -/
theorem Advances.le_of_mem (h : Advances d (p :: ps)) :
    ∀ q ∈ ps, p < q ∧ q ≤ p + ps.length * d := by
  induction ps generalizing p with
  | nil => nofun
  | cons r ps ih =>
    obtain ⟨hr, hrest⟩ := List.isChain_cons_cons.mp h
    have hlen : (r :: ps).length * d = ps.length * d + d := by
      rw [List.length_cons, Nat.succ_mul]
    intro q hq
    rcases List.mem_cons.mp hq with rfl | hq
    · omega
    · have hfar := ih hrest q hq
      omega

/-- **What is seen is distinct** while the positions are less than one turn apart. -/
theorem Advances.nodup_map {β : Type*} {f : ℕ → β} (hf : ∀ p q, f p = f q → p % n = q % n)
    (h : Advances d ps) (hlen : (ps.length - 1) * d < n) : (ps.map f).Nodup := by
  induction ps with
  | nil => exact List.nodup_nil
  | cons p ps ih =>
    rw [List.length_cons, Nat.add_sub_cancel] at hlen
    rw [List.map_cons, List.nodup_cons]
    constructor
    · intro hmem
      obtain ⟨q, hq, heq⟩ := List.mem_map.mp hmem
      obtain ⟨hlt, hle⟩ := h.le_of_mem q hq
      have hmod : (q - p) % n = 0 := Nat.sub_mod_eq_zero_of_mod_eq (hf q p heq)
      rw [Nat.mod_eq_of_lt (by omega)] at hmod
      omega
    · refine ih (h.window (List.suffix_cons p ps).isInfix) ?_
      exact Nat.lt_of_le_of_lt (Nat.mul_le_mul_right d (Nat.sub_le _ 1)) hlen

end Camkes
