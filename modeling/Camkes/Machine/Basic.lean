import Mathlib.Tactic.Common

/-!
# Machines driven by an environment

A `Machine σ ε` is a program seen from outside: in a state `s : σ` its environment may cause the
events `e` with `ok s e`, and the program answers with `step s e`, which is `none` when it fails (an
assertion does not hold, an access is out of bounds).  `M.Run s₀ ts s` says that the transitions
`ts` are a run from `s₀` to `s`.

* `Run.invariant` and `Run.forall_mem`: what every step preserves holds all along a run;
* `Preserves.safe`: where every step from a good state succeeds, no run gets stuck;
* `Run.forall_after_iff`: if exactly the steps that meet a condition give a property, it holds all
  along a run exactly when all steps of the run meet the condition;
* `Run.forall_log_iff`: the same for the entries of a log that the steps add to;
* `Run.invariant_of_forall`: what the steps that meet a condition preserve;
* `reach` runs a list of events as far as it goes; `exec` runs it to the end, and
  `exists_run_of_exec` makes a run of it.
-/

namespace Camkes

variable {σ ε : Type*}

/-- One step of a run. -/
structure Transition (σ ε : Type*) where
  before : σ
  event : ε
  after : σ

/-- A program in an environment. -/
structure Machine (σ ε : Type*) where
  -- What the environment may do.
  ok : σ → ε → Prop
  -- What the program does about it; `none` is a failure.
  step : σ → ε → Option σ

namespace Machine

variable {M : Machine σ ε} {s₀ s : σ} {ts : List (Transition σ ε)}

/-- The transitions `ts`, each allowed where it comes, lead from `s₀` to `s`. -/
inductive Run (M : Machine σ ε) (s₀ : σ) : List (Transition σ ε) → σ → Prop
  | nil : Run M s₀ [] s₀
  | snoc {ts : List (Transition σ ε)} {s : σ} {e : ε} {s' : σ} :
      Run M s₀ ts s → M.ok s e → M.step s e = some s' → Run M s₀ (ts ++ [⟨s, e, s'⟩]) s'

/-- From states with `P` every allowed step succeeds and leads to a state with `P`. -/
def Preserves (M : Machine σ ε) (P : σ → Prop) : Prop :=
  ∀ s e, P s → M.ok s e → ∃ s', M.step s e = some s' ∧ P s'

/-- No allowed step fails after a run from `s₀`. -/
def Safe (M : Machine σ ε) (s₀ : σ) : Prop :=
  ∀ ts s e, M.Run s₀ ts s → M.ok s e → (M.step s e).isSome

theorem Preserves.of_step {P : σ → Prop} (hP : M.Preserves P) {e : ε} {s' : σ} (hs : P s)
    (hok : M.ok s e) (hstep : M.step s e = some s') : P s' := by
  obtain ⟨t, ht, hPt⟩ := hP s e hs hok
  rw [hstep] at ht
  obtain rfl := Option.some.inj ht
  exact hPt

/-- **Invariants**: what holds at the start and is preserved by every step holds at the end. -/
theorem Run.invariant {P : σ → Prop} (hrun : M.Run s₀ ts s) (h₀ : P s₀)
    (hP : ∀ s e s', P s → M.ok s e → M.step s e = some s' → P s') : P s := by
  induction hrun with
  | nil => exact h₀
  | snoc _ hok hstep ih => exact hP _ _ _ ih hok hstep

/-- What every step preserves holds before and after each transition of a run. -/
theorem Run.forall_mem {P : σ → Prop} (hrun : M.Run s₀ ts s) (h₀ : P s₀)
    (hP : ∀ s e s', P s → M.ok s e → M.step s e = some s' → P s') :
    ∀ t ∈ ts, P t.before ∧ M.ok t.before t.event ∧ M.step t.before t.event = some t.after ∧
      P t.after := by
  induction hrun with
  | nil => intro t ht; cases ht
  | snoc hrun hok hstep ih =>
    intro t ht
    rcases List.mem_append.mp ht with ht | ht
    · exact ih t ht
    · obtain rfl := List.mem_singleton.mp ht
      have hs := hrun.invariant h₀ hP
      exact ⟨hs, hok, hstep, hP _ _ _ hs hok hstep⟩

theorem Preserves.run {P : σ → Prop} (hP : M.Preserves P) (h₀ : P s₀) (hrun : M.Run s₀ ts s) :
    P s :=
  hrun.invariant h₀ fun _ _ _ hs hok hstep => hP.of_step hs hok hstep

/-- **Progress**: a machine that preserves `P` never fails after a run from a state with `P`. -/
theorem Preserves.safe {P : σ → Prop} (hP : M.Preserves P) (h₀ : P s₀) : M.Safe s₀ := by
  intro ts s e hrun hok
  obtain ⟨s', hs', -⟩ := hP s e (hP.run h₀ hrun) hok
  rw [hs']
  rfl

/-- **Exact conditions along runs**: if steps that meet `C` keep the invariant `I` and give `P`, and
from a state with `I` only such steps give `P`, then `P` holds after all steps of a run exactly when
all of its steps meet `C`. -/
theorem Run.forall_after_iff {I P : σ → Prop} {C : σ → ε → Prop} (hrun : M.Run s₀ ts s)
    (h₀ : I s₀)
    (hC : ∀ s e s', I s → M.ok s e → M.step s e = some s' → C s e → I s' ∧ P s')
    (hP : ∀ s e s', I s → M.ok s e → M.step s e = some s' → P s' → C s e) :
    (∀ t ∈ ts, P t.after) ↔ ∀ t ∈ ts, C t.before t.event := by
  -- along the induction the last state has `I` as soon as all steps before it meet `C`
  suffices h : ((∀ t ∈ ts, C t.before t.event) → I s) ∧
      ((∀ t ∈ ts, P t.after) ↔ ∀ t ∈ ts, C t.before t.event) from h.2
  induction hrun with
  | nil => exact ⟨fun _ => h₀, by simp⟩
  | snoc hrun hok hstep ih =>
    obtain ⟨ihI, ih⟩ := ih
    simp only [List.forall_mem_append, List.forall_mem_singleton]
    refine ⟨?_, ?_, ?_⟩
    · rintro ⟨hts, hc⟩
      exact (hC _ _ _ (ihI hts) hok hstep hc).1
    · rintro ⟨hts, hp⟩
      exact ⟨ih.mp hts, hP _ _ _ (ihI (ih.mp hts)) hok hstep hp⟩
    · rintro ⟨hts, hc⟩
      exact ⟨ih.mpr hts, (hC _ _ _ (ihI hts) hok hstep hc).2⟩

/-- **Logs along runs**: if what a step adds to a log has `R` exactly when the step meets `C`, then
the whole log has `R` exactly when all steps of the run meet `C`. -/
theorem Run.forall_log_iff {β : Type*} {I : σ → Prop} {log : σ → List β} {R : β → Prop}
    {C : σ → ε → Prop} (hrun : M.Run s₀ ts s) (h₀ : I s₀) (hlog : log s₀ = [])
    (hstep : ∀ s e s', I s → M.ok s e → M.step s e = some s' →
      I s' ∧ ∃ new, log s' = log s ++ new ∧ ((∀ x ∈ new, R x) ↔ C s e)) :
    (∀ x ∈ log s, R x) ↔ ∀ t ∈ ts, C t.before t.event := by
  suffices h : I s ∧ ((∀ x ∈ log s, R x) ↔ ∀ t ∈ ts, C t.before t.event) from h.2
  induction hrun with
  | nil => exact ⟨h₀, by simp [hlog]⟩
  | snoc hrun hok hs ih =>
    obtain ⟨ihI, ih⟩ := ih
    obtain ⟨hI, new, hnew, hC⟩ := hstep _ _ _ ihI hok hs
    refine ⟨hI, ?_⟩
    simp only [hnew, List.forall_mem_append, List.forall_mem_singleton]
    exact and_congr ih hC

/-- **Invariants of the runs whose steps all meet a condition.** -/
theorem Run.invariant_of_forall {P : σ → Prop} {C : σ → ε → Prop} (hrun : M.Run s₀ ts s)
    (hts : ∀ t ∈ ts, C t.before t.event) (h₀ : P s₀)
    (hP : ∀ s e s', P s → M.ok s e → C s e → M.step s e = some s' → P s') : P s := by
  induction hrun with
  | nil => exact h₀
  | snoc _ hok hstep ih =>
    simp only [List.forall_mem_append, List.forall_mem_singleton] at hts
    exact hP _ _ _ (ih hts.1) hok hts.2 hstep

/-- What steps under a condition keep holds before every step of a run whose steps meet it. -/
theorem Run.before_of_forall {P : σ → Prop} {C : σ → ε → Prop} (hrun : M.Run s₀ ts s)
    (hts : ∀ t ∈ ts, C t.before t.event) (h₀ : P s₀)
    (hP : ∀ s e s', P s → M.ok s e → C s e → M.step s e = some s' → P s') :
    ∀ t ∈ ts, P t.before := by
  induction hrun with
  | nil => intro t ht; cases ht
  | snoc hrun _ _ ih =>
    simp only [List.forall_mem_append, List.forall_mem_singleton] at hts ⊢
    exact ⟨ih hts.1, hrun.invariant_of_forall hts.1 h₀ hP⟩

/-- The events of a run, in order. -/
def events (ts : List (Transition σ ε)) : List ε := ts.map Transition.event

@[simp] theorem events_append (ts us : List (Transition σ ε)) :
    events (ts ++ us) = events ts ++ events us :=
  List.map_append

/-! ### Executing events -/

/-- The state that the events lead to; after a failure nothing more happens. -/
def reach (M : Machine σ ε) (s : σ) : List ε → σ
  | [] => s
  | e :: es =>
    match M.step s e with
    | some s' => M.reach s' es
    | none => s

theorem reach_cons_of_step {e : ε} {s' : σ} (h : M.step s e = some s') (es : List ε) :
    M.reach s (e :: es) = M.reach s' es := by
  rw [reach, h]

/-- The run of these events, if each is allowed where it comes and succeeds. -/
def exec (M : Machine σ ε) [∀ s e, Decidable (M.ok s e)] (s : σ) :
    List ε → Option (List (Transition σ ε) × σ)
  | [] => some ([], s)
  | e :: es =>
    if M.ok s e then
      (M.step s e).bind fun s' => (M.exec s' es).map fun r => (⟨s, e, s'⟩ :: r.1, r.2)
    else none

/-- A run and another one from where it ends. -/
theorem Run.append {us : List (Transition σ ε)} {s' : σ} (h : M.Run s₀ ts s)
    (h' : M.Run s us s') : M.Run s₀ (ts ++ us) s' := by
  induction h' with
  | nil => rwa [List.append_nil]
  | snoc _ hok hstep ih =>
    rw [← List.append_assoc]
    exact .snoc ih hok hstep

/-- A run found by executing the events. -/
theorem run_of_exec [∀ s e, Decidable (M.ok s e)] {es : List ε}
    (h : M.exec s₀ es = some (ts, s)) : M.Run s₀ ts s ∧ events ts = es := by
  induction es generalizing s₀ ts with
  | nil =>
    rw [exec] at h
    obtain ⟨rfl, rfl⟩ := Prod.mk.inj (Option.some.inj h)
    exact ⟨.nil, rfl⟩
  | cons e es ih =>
    rw [exec] at h
    split_ifs at h with hok
    obtain ⟨s₁, hstep, hrest⟩ := Option.bind_eq_some_iff.mp h
    obtain ⟨⟨ts', last⟩, hexec, hlast⟩ := Option.map_eq_some_iff.mp hrest
    obtain ⟨rfl, rfl⟩ := Prod.mk.inj hlast
    obtain ⟨hrun, rfl⟩ := ih hexec
    exact ⟨Run.append (.snoc .nil hok hstep) hrun, rfl⟩

/-- A run that can be checked by computing it. -/
theorem exists_run_of_exec (M : Machine σ ε) [∀ s e, Decidable (M.ok s e)] (s₀ : σ) (es : List ε)
    (p : List (Transition σ ε) × σ → Bool) (h : (M.exec s₀ es).any p) :
    ∃ ts s, M.Run s₀ ts s ∧ events ts = es ∧ p (ts, s) = true := by
  obtain ⟨⟨ts, s⟩, hexec, hp⟩ := (Option.any_eq_true _ _).mp h
  obtain ⟨hrun, hevents⟩ := run_of_exec hexec
  exact ⟨ts, s, hrun, hevents, hp⟩

end Machine

end Camkes
