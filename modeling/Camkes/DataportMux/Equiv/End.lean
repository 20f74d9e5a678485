import Camkes.DataportMux.Equiv.Turns
import Camkes.Machine.Progress
import Mathlib.Algebra.BigOperators.Fin

/-!
# The end of `testdataportmux`

Every run ends (`run_ends`), with the value at least at the limit.  The component whose increment
gets it there is through; each other one is through too, or waits for a turn that does not come.
-/

namespace Camkes.DataportMux

variable {n limit : ℕ} {s s' : State n} {c d : Fin n} {ts : List (Transition (State n) (Fin n))}

/-! ### How much is left to do -/

/-- The steps up to the next check of the limit. -/
def At.remaining : At → ℕ
  | outer => 6
  | wait => 5
  | read => 4
  | print _ => 3
  | swap _ => 2
  | finish => 1
  | done => 0

/-- A bound of the steps that are left. -/
def State.remaining (limit : ℕ) (s : State n) : ℕ :=
  5 * (limit + (n - 1) - s.value) + ∑ c, (s.pc c).remaining

/-- Every step brings the end nearer. -/
theorem remaining_lt (h : Inv limit s) (hs : Step limit s c s') :
    s'.remaining limit < s.remaining limit := by
  have hsum (p : At) : ∑ d, ((s.goto c p).pc d).remaining + (s.pc c).remaining =
      ∑ d, (s.pc d).remaining + p.remaining := Machine.sum_update At.remaining s.pc c p
  -- a step that leaves the value alone
  have hgoto (p : At) (hp : p.remaining < (s.pc c).remaining) :
      5 * (limit + (n - 1) - s.value) + ∑ d, ((s.goto c p).pc d).remaining <
        s.remaining limit := by
    have hp' := hsum p
    rw [State.remaining]
    omega
  cases hs with
  | enter hpc => exact hgoto .wait (by simp [hpc, At.remaining])
  | leave hpc => exact hgoto .finish (by simp [hpc, At.remaining])
  | turn hpc => exact hgoto .read (by simp [hpc, At.remaining])
  | read hpc => exact hgoto (.print s.value) (by simp [hpc, At.remaining])
  | print hpc => exact hgoto (.swap _) (by simp [hpc, At.remaining])
  | swap hpc =>
    have hlt := h.value_lt (c := c) (by rw [hpc]; rfl)
    have hp := hsum .outer
    rw [hpc] at hp
    show 5 * (limit + (n - 1) - (s.value + 1)) + ∑ d, ((s.goto c .outer).pc d).remaining <
      5 * (limit + (n - 1) - s.value) + ∑ d, (s.pc d).remaining
    simp only [At.remaining] at hp ⊢
    omega
  | last hpc => exact hgoto .done (by simp [hpc, At.remaining])
  | finish hpc => exact hgoto .done (by simp [hpc, At.remaining])

theorem decreases (n limit : ℕ) :
    (machine n limit).Decreases (Inv limit) (fun _ => true) (State.remaining limit) 0 where
  preserved _ _ _ h hok hstep := h.step (step_of_machine hok hstep)
  lt_of_work _ _ _ h hok hstep _ := remaining_lt h (step_of_machine hok hstep)
  le_of_not_work _ _ _ _ _ _ hnot := by cases hnot

theorem remaining_init (n limit : ℕ) :
    (State.init n).remaining limit = 5 * (limit + (n - 1)) + 6 * n := by
  show 5 * (limit + (n - 1) - 0) + ∑ _ : Fin n, 6 = _
  rw [Finset.sum_const, Finset.card_univ, Fintype.card_fin, smul_eq_mul]
  omega

/-! ### Who says that it is done -/

def Line.isDone : Line → Bool
  | weAreDone _ => true
  | _ => false

/-- The last component says so once, when it is through. -/
def Said (s : State n) : Prop :=
  ∀ c : Fin n, (c : ℕ) + 1 = n →
    s.log.countP Line.isDone = if s.pc c = .done then 1 else 0

/-- The last component says it is done when it leaves its loop, and only then. -/
theorem Said.step (h : Said s) (hs : Step limit s c s') : Said s' := by
  intro d hd
  have hcount := h d hd
  by_cases hdc : d = c
  · subst hdc
    cases hs with
    | last hpc hlast =>
      rw [hpc] at hcount
      simpa [Line.isDone] using hcount
    | finish hpc hlast => exact absurd hd hlast
    | print hpc =>
      rw [hpc] at hcount
      simpa [Line.isDone] using hcount
    | _ hpc =>
      rw [hpc] at hcount
      simpa using hcount
  · cases hs with
    | last hpc hlast => exact absurd (Fin.ext (by omega)) hdc
    | print hpc => simpa [Line.isDone, hdc] using hcount
    | _ => simpa [hdc] using hcount

/-- In every reachable state, the last component has said once that it is done if it is, and else
not at all. -/
theorem said_of_run (hrun : (machine n limit).Run (.init n) ts s) : Said s :=
  hrun.invariant (fun _ _ => rfl) fun _ _ _ h hok hstep => h.step (step_of_machine hok hstep)

/-! ### The end -/

theorem done_or_wait_of_not_ok (h : ¬ (machine n limit).ok s c) :
    s.pc c = .done ∨ s.pc c = .wait ∧ s.value % n ≠ c := by
  have h' : ¬ s.ok c := h
  rw [State.ok] at h'
  cases hpc : s.pc c <;> simp_all

/-- **Termination**: a run has at most `5 * (limit + n - 1) + 6 * n` steps.  If nobody can take a
step, the limit has been reached, in turn, the component that got there is through, and each other
component is through or waits.  If the limit is a multiple of the number of components, it has been
said once that they are done. -/
theorem run_ends (hrun : (machine n limit).Run (.init n) ts s) :
    ts.length ≤ 5 * (limit + (n - 1)) + 6 * n ∧
    (0 < n → (∀ c, ¬ (machine n limit).ok s c) →
      limit ≤ s.value ∧ s.log.filter Line.isTurn = turns n s.value ∧
      (∀ c : Fin n, (c : ℕ) = lastTurn n limit → s.pc c = .done) ∧
      (∀ c, s.pc c = .done ∨ s.pc c = .wait ∧ s.value % n ≠ c) ∧
      (n ∣ limit → s.log.countP Line.isDone = 1)) := by
  have h := inv_of_run hrun
  constructor
  · have hle := (decreases n limit).countP_add_le (inv_init n limit) hrun
    rw [remaining_init, List.countP_true, Machine.events, List.length_map] at hle
    omega
  · intro hn hstuck
    have hend : ∀ c, s.pc c = .done ∨ s.pc c = .wait ∧ s.value % n ≠ c := fun c =>
      done_or_wait_of_not_ok (hstuck c)
    have hle : limit ≤ s.value := by
      -- the component whose turn it is does not wait
      rcases hend ⟨s.value % n, Nat.mod_lt _ hn⟩ with hd | ⟨-, hne⟩
      · exact h.ended _ (.inr hd)
      · exact absurd rfl hne
    have hlast : ∀ c : Fin n, (c : ℕ) = lastTurn n limit → s.pc c = .done := by
      intro c hc
      rcases hend c with hd | ⟨hw, -⟩
      · exact hd
      · have hfalse := h.turn_ended hle c hc
        rw [hw] at hfalse
        cases hfalse
    refine ⟨hle, h.printed fun c => ?_, hlast, hend, fun hdvd => ?_⟩
    · rcases hend c with hd | ⟨hw, -⟩
      · rw [hd]
        rfl
      · rw [hw]
        rfl
    · obtain ⟨k, rfl⟩ := hdvd
      have hturn : lastTurn n (n * k) = n - 1 := by
        rw [lastTurn, Nat.add_sub_assoc hn, Nat.mul_add_mod, Nat.mod_eq_of_lt (by omega)]
      have hsaid := said_of_run hrun ⟨n - 1, by omega⟩ (by show n - 1 + 1 = n; omega)
      rw [hsaid, if_pos (hlast _ hturn.symm)]

theorem run_ends_overshoot : ∃ ts s, (machine 2 2).Run (.init 2) ts s ∧
    Machine.events ts = overshoot ∧ ts.length ≤ 27 ∧ s.log.countP Line.isDone = 1 := by
  obtain ⟨ts, s, hrun, hevents, hstuck⟩ := Machine.exists_run_of_exec (machine 2 2) (.init 2)
    overshoot (fun r => ∀ c, ¬ (machine 2 2).ok r.2 c) (by decide)
  obtain ⟨hle, hend⟩ := run_ends hrun
  obtain ⟨-, -, -, -, hone⟩ := hend (by decide) (of_decide_eq_true hstuck)
  exact ⟨ts, s, hrun, hevents, hle, hone ⟨1, rfl⟩⟩

end Camkes.DataportMux
