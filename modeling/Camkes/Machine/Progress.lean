import Camkes.Machine.Basic
import Mathlib.Algebra.BigOperators.Group.Finset.Basic
import Mathlib.Algebra.Ring.Nat

/-!
# Progress of machines

Some events of a machine are work: each leaves less to do, by a measure `μ`, while each of the other
events adds at most `c` to it.  Then the work of a run is bounded by the other events of it
(`Decreases.countP_add_le`); and if there is work as long as the goal is not reached, it can be
reached from everywhere (`Decreases.exists_run`).  For machines made of several components,
`sum_update` says what a step of one of them does to the sum of what they have left to do.
-/

namespace Camkes.Machine

variable {σ ε : Type*} {M : Machine σ ε} {I : σ → Prop} {work : ε → Bool} {μ : σ → ℕ} {c : ℕ}
  {s₀ s : σ} {ts : List (Transition σ ε)}

/-- What the events do to the measure in states with `I`. -/
structure Decreases (M : Machine σ ε) (I : σ → Prop) (work : ε → Bool) (μ : σ → ℕ) (c : ℕ) :
    Prop where
  preserved : ∀ s e s', I s → M.ok s e → M.step s e = some s' → I s'
  lt_of_work : ∀ s e s', I s → M.ok s e → M.step s e = some s' → work e = true → μ s' < μ s
  le_of_not_work : ∀ s e s', I s → M.ok s e → M.step s e = some s' → work e = false →
    μ s' ≤ μ s + c

/-- The steps that count are bounded by the measure and by the steps that do not. -/
theorem Decreases.countP_add_le (h : M.Decreases I work μ c) (h₀ : I s₀) (hrun : M.Run s₀ ts s) :
    (events ts).countP work + μ s ≤ μ s₀ + c * (events ts).countP (!work ·) := by
  induction hrun with
  | nil => simp [events]
  | @snoc ts s e s' hrun hok hstep ih =>
    have hI := hrun.invariant h₀ h.preserved
    have hwork (b : ε → Bool) : (events [⟨s, e, s'⟩]).countP b = if b e then 1 else 0 := by
      simp [events, List.countP_singleton]
    rw [events_append, List.countP_append, List.countP_append, hwork, hwork]
    cases he : work e with
    | true =>
      have hlt := h.lt_of_work s e s' hI hok hstep he
      simp
      omega
    | false =>
      have hle := h.le_of_not_work s e s' hI hok hstep he
      simp [Nat.mul_add]
      omega

/-- **Progress**: where there is work until the goal is reached, some run of work reaches it. -/
theorem Decreases.exists_run {goal : σ → Prop} (h : M.Decreases I work μ c)
    (hprogress : ∀ s, I s → ¬ goal s →
      ∃ e, work e = true ∧ M.ok s e ∧ (M.step s e).isSome) (h₀ : I s₀) :
    ∃ ts s, M.Run s₀ ts s ∧ goal s ∧ (events ts).all work := by
  -- by induction on the measure
  induction hμ : μ s₀ using Nat.strongRecOn generalizing s₀ with
  | _ m ih =>
    by_cases hgoal : goal s₀
    · exact ⟨[], s₀, .nil, hgoal, rfl⟩
    · obtain ⟨e, hwork, hok, hsome⟩ := hprogress s₀ h₀ hgoal
      obtain ⟨s₁, hstep⟩ := Option.isSome_iff_exists.mp hsome
      have hlt := h.lt_of_work s₀ e s₁ h₀ hok hstep hwork
      obtain ⟨ts, s, hrun, hs, hall⟩ :=
        ih (μ s₁) (hμ ▸ hlt) (h.preserved s₀ e s₁ h₀ hok hstep) rfl
      refine ⟨_, s, Run.append (.snoc .nil hok hstep) hrun, hs, ?_⟩
      rw [events_append, List.all_append, hall]
      simp [events, hwork]

/-- One of several components goes on. -/
theorem sum_update {τ α : Type*} [Fintype τ] [DecidableEq τ] (f : α → ℕ) (pc : τ → α) (c : τ)
    (p : α) : ∑ d, f (Function.update pc c p d) + f (pc c) = ∑ d, f (pc d) + f p := by
  rw [← Finset.add_sum_erase _ _ (Finset.mem_univ c),
    ← Finset.add_sum_erase _ (fun d => f (pc d)) (Finset.mem_univ c)]
  have hrest : ∑ d ∈ Finset.univ.erase c, f (Function.update pc c p d) =
      ∑ d ∈ Finset.univ.erase c, f (pc d) := by
    refine Finset.sum_congr rfl fun d hd => ?_
    rw [Function.update_of_ne (Finset.ne_of_mem_erase hd)]
  rw [hrest, Function.update_self]
  omega

end Camkes.Machine
