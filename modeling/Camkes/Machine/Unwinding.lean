import Camkes.Machine.Basic

/-!
# Views that other events do not change

A `view` says what can be seen of a state.  If every event either changes the view as a function of
the view, or leaves it as it is, the view after a run depends only on the events of the first kind.
-/

namespace Camkes.Machine

variable {σ ε ν : Type*} {M : Machine σ ε} {I : σ → Prop} {view : σ → ν} {concerns : ε → Bool}
  {change : ν → ε → ν} {s₀ s₀' s : σ} {ts : List (Transition σ ε)}

/-- From states with `I` the events succeed, and they change the view by `change` if they concern
it, and otherwise not at all. -/
def Unwinds (M : Machine σ ε) (I : σ → Prop) (view : σ → ν) (concerns : ε → Bool)
    (change : ν → ε → ν) : Prop :=
  ∀ s e, I s → M.ok s e → ∃ s', M.step s e = some s' ∧ I s' ∧
    view s' = if concerns e then change (view s) e else view s

/-- Unwinding keeps the invariant. -/
theorem Unwinds.preserves (h : M.Unwinds I view concerns change) : M.Preserves I := by
  intro s e hs hok
  obtain ⟨s', hstep, hs', -⟩ := h s e hs hok
  exact ⟨s', hstep, hs'⟩

theorem Unwinds.view_eq (h : M.Unwinds I view concerns change) {s s' : σ} {e : ε} (hs : I s)
    (hok : M.ok s e) (hstep : M.step s e = some s') :
    view s' = if concerns e then change (view s) e else view s := by
  obtain ⟨s'', hstep', -, hview⟩ := h s e hs hok
  obtain rfl := Option.some.inj (hstep.symm.trans hstep')
  exact hview

/-- **Noninterference**: a run from another state that looks the same can leave out the events that
do not concern the view. -/
theorem Unwinds.exists_run (h : M.Unwinds I view concerns change)
    (hok : ∀ s s' e, I s → I s' → M.ok s e → M.ok s' e) (hrun : M.Run s₀ ts s) (h₀ : I s₀)
    (h₀' : I s₀') (hview : view s₀' = view s₀) :
    ∃ ts' s', M.Run s₀' ts' s' ∧ events ts' = (events ts).filter concerns ∧
      view s' = view s := by
  induction hrun with
  | nil => exact ⟨[], s₀', .nil, rfl, hview⟩
  | @snoc ts s e s₁ hrun hoks hstep ih =>
    obtain ⟨ts', s', hrun', hevents, hsame⟩ := ih
    have hs : I s := h.preserves.run h₀ hrun
    have hs' : I s' := h.preserves.run h₀' hrun'
    have hchange := h.view_eq hs hoks hstep
    rw [events_append, List.filter_append, ← hevents]
    by_cases he : concerns e = true
    · have hoks' := hok s s' e hs hs' hoks
      obtain ⟨s₁', hstep', -, hchange'⟩ := h s' e hs' hoks'
      rw [if_pos he] at hchange hchange'
      refine ⟨_, s₁', hrun'.snoc hoks' hstep', ?_, ?_⟩
      · simp [events, he]
      · rw [hchange', hchange, hsame]
    · rw [if_neg he] at hchange
      refine ⟨ts', s', hrun', ?_, hsame.trans hchange.symm⟩
      simp [events, he]

end Camkes.Machine
