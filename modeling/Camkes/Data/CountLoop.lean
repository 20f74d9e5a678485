import Mathlib.Data.Nat.Notation
import Mathlib.Tactic.Common

/-!
# Loops that count in a bounded type

`countLoop max n f i s` is the loop `for (; i < n; i++) s = f(s, i)` where the type of the counter
ends at `max`.  It returns the state and the counter after the loop, and fails (`none`) when its
body does or the counter overflows.

Such a loop keeps an invariant (`exists_countLoop`) as long as its bound is one that the counter can
reach; otherwise it fails, whatever it does (`countLoop_eq_none`).
-/

namespace Camkes

variable {σ : Type*} {max n i : ℕ} {f : σ → ℕ → Option σ} {s : σ}

/-- The loop `for (; i < n; i++)`, whose counter must not exceed `max`. -/
def countLoop (max n : ℕ) (f : σ → ℕ → Option σ) (i : ℕ) (s : σ) : Option (σ × ℕ) :=
  if i < n then do
    let s ← f s i
    if i < max then countLoop max n f (i + 1) s else none
  else some (s, i)
termination_by n - i

theorem countLoop_of_le (h : n ≤ i) : countLoop max n f i s = some (s, i) := by
  rw [countLoop, if_neg (by omega)]

theorem countLoop_of_lt (h : i < n) (hmax : i < max) :
    countLoop max n f i s = (f s i).bind (countLoop max n f (i + 1)) := by
  rw [countLoop, if_pos h]
  simp only [if_pos hmax]
  rfl

/-- **Invariants**: `P i s` holds of the counter and the state. -/
theorem exists_countLoop {P : ℕ → σ → Prop} (hmax : n ≤ max) (hi : i ≤ n) (h : P i s)
    (hstep : ∀ j s, i ≤ j → j < n → P j s → ∃ s', f s j = some s' ∧ P (j + 1) s') :
    ∃ s', countLoop max n f i s = some (s', n) ∧ P n s' := by
  obtain ⟨d, rfl⟩ : ∃ d, n = i + d := ⟨n - i, by omega⟩
  -- by the number of rounds that are left
  induction d generalizing i s with
  | zero => exact ⟨s, countLoop_of_le (Nat.le_refl _), h⟩
  | succ d ih =>
    obtain ⟨s₁, hs₁, h₁⟩ := hstep i s (Nat.le_refl i) (by omega) h
    have hassoc : i + (d + 1) = i + 1 + d := by omega
    rw [hassoc] at hmax hstep ⊢
    obtain ⟨s', hrest, h'⟩ := ih h₁ hmax (by omega) fun j s hj => hstep j s (by omega)
    refine ⟨s', ?_, h'⟩
    rw [countLoop_of_lt (by omega) (by omega), hs₁]
    exact hrest

/-- A counter that cannot reach the bound overflows. -/
theorem countLoop_eq_none (hi : i ≤ max) (hmax : max < n) : countLoop max n f i s = none := by
  obtain ⟨d, rfl⟩ : ∃ d, max = i + d := ⟨max - i, by omega⟩
  induction d generalizing i s with
  | zero =>
    rw [countLoop, if_pos (by omega)]
    cases f s i with
    | none => rfl
    | some s₁ => exact if_neg (by omega)
  | succ d ih =>
    rw [countLoop_of_lt (by omega) (by omega)]
    have hassoc : i + (d + 1) = i + 1 + d := by omega
    rw [hassoc] at hmax ⊢
    cases f s i with
    | none => rfl
    | some s₁ => exact ih (by omega) hmax

end Camkes
