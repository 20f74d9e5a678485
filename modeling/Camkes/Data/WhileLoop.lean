import Mathlib.Data.Nat.Notation
import Mathlib.Tactic.Common

/-!
# Loops that may go on for ever

A loop is given by its body, a function `σ → Option (σ ⊕ ρ)`: a round fails (`none`), goes on with
another state (`inl`), or leaves the loop with a result (`inr`).  `WhileLoop.run body n s` runs at
most `n` rounds.

* `Exits body s r`: the loop leaves with the result `r`; `exists_run_eq_done_iff` says that this is
  what `run` finds;
* `run_ne_running`: a loop with a measure that every round decreases comes to an end, where an
  invariant may be used;
* `run_eq_running`: a loop whose rounds all go on does not.
-/

namespace Camkes.WhileLoop

variable {σ ρ α β : Type}

/-- What is known of a loop after a number of rounds. -/
inductive Result (ρ : Type)
  | done (r : ρ)
  | fault
  | running
  deriving DecidableEq

def Result.bind : Result α → (α → Result β) → Result β
  | done a, f => f a
  | fault, _ => fault
  | running, _ => running

def Result.ofOption : Option α → Result α
  | some a => done a
  | none => fault

instance monad_result : Monad Result where
  pure := .done
  bind := .bind

@[simp] theorem pure_eq (a : α) : (pure a : Result α) = .done a := rfl

@[simp] theorem done_bind (a : α) (f : α → Result β) : (Result.done a >>= f) = f a := rfl

/-- One computation after another is done when both are. -/
theorem bind_eq_done_iff {x : Result α} {f : α → Result β} {b : β} :
    (x >>= f) = .done b ↔ ∃ a, x = .done a ∧ f a = .done b := by
  cases x with
  | done a => simp
  | fault =>
    constructor
    · intro h
      cases h
    · rintro ⟨a, h, -⟩
      cases h
  | running =>
    constructor
    · intro h
      cases h
    · rintro ⟨a, h, -⟩
      cases h

theorem bind_ne_running {x : Result α} {f : α → Result β} (hx : x ≠ .running)
    (hf : ∀ a, x = .done a → f a ≠ .running) : (x >>= f) ≠ .running := by
  cases x with
  | done a => exact hf a rfl
  | fault => exact fun h => by cases h
  | running => exact absurd rfl hx

@[simp] theorem ofOption_some (a : α) : Result.ofOption (some a) = .done a := rfl

theorem ofOption_ne_running (x : Option α) : Result.ofOption x ≠ .running := by
  cases x with
  | none => exact fun h => by cases h
  | some a => exact fun h => by cases h

@[simp] theorem ofOption_eq_done_iff {x : Option α} {a : α} :
    Result.ofOption x = .done a ↔ x = some a := by
  cases x with
  | none => simp [Result.ofOption]
  | some b => simp [Result.ofOption]

/-! ### Runs -/

/-- At most `n` rounds of the loop. -/
def run (body : σ → Option (σ ⊕ ρ)) : ℕ → σ → Result ρ
  | 0, _ => .running
  | n + 1, s =>
    match body s with
    | none => .fault
    | some (.inl s') => run body n s'
    | some (.inr r) => .done r

/-- The loop leaves with the result `r`. -/
inductive Exits (body : σ → Option (σ ⊕ ρ)) : σ → ρ → Prop
  | exit {s : σ} {r : ρ} (h : body s = some (.inr r)) : Exits body s r
  | next {s s' : σ} {r : ρ} (h : body s = some (.inl s')) (rest : Exits body s' r) :
      Exits body s r

variable {body : σ → Option (σ ⊕ ρ)} {s s' : σ} {r : ρ} {n m : ℕ}

theorem run_succ_of_inl (h : body s = some (.inl s')) (n : ℕ) :
    run body (n + 1) s = run body n s' := by
  rw [run, h]

theorem run_succ_of_inr (h : body s = some (.inr r)) (n : ℕ) :
    run body (n + 1) s = .done r := by
  rw [run, h]

/-- A loop that is done has exited. -/
theorem exits_of_run (h : run body n s = .done r) : Exits body s r := by
  induction n generalizing s with
  | zero => cases h
  | succ n ih =>
    rw [run] at h
    split at h
    · cases h
    · rename_i s' hbody
      exact .next hbody (ih h)
    · rename_i r' hbody
      cases h
      exact .exit hbody

/-- With enough rounds, a loop is done exactly if it exits. -/
theorem exists_run_eq_done_iff : (∃ n, run body n s = .done r) ↔ Exits body s r := by
  refine ⟨fun ⟨n, h⟩ => exits_of_run h, fun h => ?_⟩
  induction h with
  | exit h => exact ⟨1, run_succ_of_inr h 0⟩
  | next h _ ih =>
    obtain ⟨n, hn⟩ := ih
    exact ⟨n + 1, (run_succ_of_inl h n).trans hn⟩

/-- More rounds change nothing once the loop has come to an end. -/
theorem run_of_le (h : run body n s ≠ .running) (hnm : n ≤ m) : run body m s = run body n s := by
  induction n generalizing s m with
  | zero => exact absurd rfl h
  | succ n ih =>
    obtain ⟨m, rfl⟩ : ∃ k, m = k + 1 := ⟨m - 1, by omega⟩
    rw [run] at h ⊢
    cases hbody : body s with
    | none => rw [run, hbody]
    | some x =>
      cases x with
      | inl s' =>
        rw [hbody] at h
        rw [run, hbody]
        exact ih h (by omega)
      | inr r => rw [run, hbody]

/-- Enough rounds find the result. -/
theorem exists_forall_run_eq_done (h : Exits body s r) : ∃ n, ∀ m ≥ n, run body m s = .done r := by
  obtain ⟨n, hn⟩ := exists_run_eq_done_iff.mpr h
  refine ⟨n, fun m hm => ?_⟩
  rw [← hn]
  refine run_of_le ?_ hm
  rw [hn]
  exact fun h => by cases h

/-- **Termination**: a loop ends if every round keeps an invariant and decreases a measure. -/
theorem run_ne_running {P : σ → Prop} (μ : σ → ℕ)
    (hμ : ∀ s s', P s → body s = some (.inl s') → P s' ∧ μ s' < μ s) (hs : P s) (h : μ s < n) :
    run body n s ≠ .running := by
  induction n generalizing s with
  | zero => omega
  | succ n ih =>
    rw [run]
    cases hbody : body s with
    | none => exact fun h => by cases h
    | some x =>
      cases x with
      | inl s' =>
        obtain ⟨hs', hlt⟩ := hμ s s' hs hbody
        exact ih hs' (by omega)
      | inr r => exact fun h => by cases h

/-- A loop that has come to an end has a result that it exits with, if it has not failed. -/
theorem run_eq_done_of_exits (h : Exits body s r) (hn : run body n s ≠ .running) :
    run body n s = .done r := by
  obtain ⟨m, hm⟩ := exists_run_eq_done_iff.mpr h
  rcases Nat.le_total n m with hle | hle
  · rw [← run_of_le hn hle]
    exact hm
  · have hne : run body m s ≠ .running := by
      rw [hm]
      exact fun h => by cases h
    rw [run_of_le hne hle]
    exact hm

/-- **Divergence**: a loop whose rounds all go on does not end. -/
theorem run_eq_running {P : σ → Prop} (hP : ∀ s, P s → ∃ s', body s = some (.inl s') ∧ P s')
    (hs : P s) (n : ℕ) : run body n s = .running := by
  induction n generalizing s with
  | zero => rfl
  | succ n ih =>
    obtain ⟨s', hbody, hs'⟩ := hP s hs
    rw [run_succ_of_inl hbody]
    exact ih hs'

end Camkes.WhileLoop
