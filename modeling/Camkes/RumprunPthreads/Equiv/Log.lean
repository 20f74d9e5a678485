import Camkes.RumprunPthreads.Equiv.Main

/-!
# What `rumprun_pthreads` prints

The counter reaches the limit once, and the thread that gets it there says so (`Reported`).  When
`main` is done, it has printed the final value of the counter (`no_lost_increment`).
-/

namespace Camkes.RumprunPthreads

variable {n limit : ℕ} {s s' : State} {k : Fin 2} {ts : List (Transition State Event)}

def Line.isReached : Line → Bool
  | thresholdReached _ _ => true
  | _ => false

def Line.isFinal : Line → Bool
  | final _ => true
  | _ => false

/-- About to compare the counter with the limit. -/
def IncAt.testing : IncAt → Bool
  | test _ => true
  | _ => false

/-- How often it has been printed that the threshold is reached. -/
def State.reached (s : State) : ℕ := s.log.countP Line.isReached

/-- It has not been printed that the limit is reached while the counter is below it or has yet to be
tested, and it has been printed once after that. -/
structure Reported (limit : ℕ) (s : State) : Prop where
  below : s.count < limit → s.reached = 0
  pending : s.count = limit → ∀ k, (s.incs k).testing = true → s.reached = 0
  reported : limit ≤ s.count → (s.count = limit → ∀ k, (s.incs k).testing = false) →
    s.reached = 1

theorem IncAt.inside_of_testing {p : IncAt} (h : p.testing = true) : p.inside = true := by
  cases p <;> simp_all [IncAt.testing, IncAt.inside]

theorem loopHead_testing (n i : ℕ) : (loopHead n i).testing = false := by
  rw [loopHead]
  split_ifs <;> rfl

namespace Reported

/-- A step that keeps the counter and prints nothing about the threshold. -/
theorem of_eq (h : Reported limit s) (hcount : s'.count = s.count) (hlog : s'.reached = s.reached)
    (htest : s.count = limit → ∀ k, (s'.incs k).testing = (s.incs k).testing) :
    Reported limit s' where
  below hlt := by
    rw [hlog]
    exact h.below (by omega)
  pending heq k hk := by
    rw [hlog]
    rw [htest (by omega)] at hk
    exact h.pending (by omega) k hk
  reported hle hnot := by
    rw [hlog]
    refine h.reported (by omega) fun heq k => ?_
    rw [← htest heq]
    exact hnot (by omega) k

variable (h : Reported limit s) (hc : Counter n limit s)
include hc

theorem testing_eq_false {j : Fin 2} (hk : (s.incs k).inside = true)
    (htest : (s.incs k).testing = false) : (s.incs j).testing = false := by
  rw [Bool.eq_false_iff]
  intro hj
  rw [hc.inc_inside_unique (IncAt.inside_of_testing hj) hk, htest] at hj
  cases hj

include h

/-- The write of an increment that reaches the limit leaves the test for it to do. -/
theorem store {i v : ℕ} (hpc : s.incs k = .store i v) :
    Reported limit { s.setInc k (.test i) with count := v + 1 } := by
  have hv := hc.inc_read k i v hpc
  subst hv
  have hnot : ∀ j, (s.incs j).testing = false := fun j =>
    testing_eq_false hc (k := k) (by rw [hpc]; rfl) (by rw [hpc]; rfl)
  refine ⟨fun hlt => h.below (Nat.lt_of_succ_lt hlt), fun heq _ _ => ?_, fun hle htest => ?_⟩
  · have heq' : s.count + 1 = limit := heq
    exact h.below (by omega)
  · have hne : s.count + 1 ≠ limit := by
      intro heq
      have hk := htest heq k
      simp [IncAt.testing] at hk
    have hle' : limit ≤ s.count + 1 := hle
    exact h.reported (by omega) fun _ => hnot

/-- The test that finds the limit reports it. -/
theorem reached {i id : ℕ} (hpc : s.incs k = .test i) (heq : s.count = limit) :
    Reported limit ((s.setInc k (.signal i)).print [.thresholdReached id s.count]) := by
  have hzero := h.pending heq k (by rw [hpc]; rfl)
  have hone : ((s.setInc k (.signal i)).print [.thresholdReached id s.count]).reached = 1 := by
    simpa [State.reached, Line.isReached] using hzero
  refine ⟨fun hlt => ?_, fun _ j hj => ?_, fun _ _ => hone⟩
  · have hlt' : s.count < limit := hlt
    omega
  · by_cases hjk : j = k
    · simp [hjk, IncAt.testing] at hj
    · simp [hjk] at hj
      exact absurd (hc.inc_inside_unique (IncAt.inside_of_testing hj) (by rw [hpc]; rfl)) hjk

/-- A step of `inc_count` reports the threshold when the counter reaches it, and only then. -/
theorem incStep (hs : IncStep n limit s k s') : Reported limit s' := by
  -- a step that stays out of the comparison
  have hkeep (p : IncAt) (hk : (s.incs k).testing = false) (hp : p.testing = false) (j : Fin 2) :
      ((s.setInc k p).incs j).testing = (s.incs j).testing := by
    by_cases hj : j = k
    · simp [hj, hk, hp]
    · simp [hj]
  cases hs with
  | lock hpc free => exact h.of_eq rfl rfl fun _ => hkeep _ (by rw [hpc]; rfl) rfl
  | load hpc => exact h.of_eq rfl rfl fun _ => hkeep _ (by rw [hpc]; rfl) rfl
  | store hpc => exact h.store hc hpc
  | reached hpc heq => exact h.reached hc hpc heq
  | skip hpc hne => exact h.of_eq rfl rfl fun heq => absurd heq hne
  | signal hpc =>
    exact h.of_eq rfl (by simp [State.reached, Line.isReached])
      fun _ => hkeep _ (by rw [hpc]; rfl) rfl
  | unlock hpc =>
    exact h.of_eq rfl (by simp [State.reached, Line.isReached])
      fun _ => hkeep _ (by rw [hpc]; rfl) (loopHead_testing n _)

/-- A step of `watch_count` reports no threshold: it adds to a counter that has reached it. -/
theorem watchStep (hs : WatchStep limit s s') : Reported limit s' := by
  cases hs with
  | store hpc =>
    have hv := hc.watch_read _ hpc
    subst hv
    have hle := hc.limit_le_count (by rw [hpc]; rfl)
    have hone : s.reached = 1 := by
      refine h.reported hle fun _ j => ?_
      rw [Bool.eq_false_iff]
      intro hj
      have hfalse := hc.inc_inside_eq_false (by rw [hpc]; rfl) j
      rw [IncAt.inside_of_testing hj] at hfalse
      cases hfalse
    refine ⟨fun hlt => ?_, fun heq => ?_, fun _ _ => hone⟩
    · have hlt' : s.count + 125 < limit := hlt
      omega
    · have heq' : s.count + 125 = limit := heq
      omega
  | _ => exact h.of_eq rfl (by simp [State.reached, Line.isReached]) fun _ _ => rfl

omit hc in
/-- `main` reports no threshold. -/
theorem mainStep (hlife : Lifecycle s) (hs : MainStep n s s') : Reported limit s' := by
  cases hs with
  | @create t hpc =>
    have hunborn : s.unborn t = true := by
      rw [hlife.unborn_iff, hpc]
      exact Nat.le.refl
    cases t with
    | watch => exact h.of_eq rfl rfl fun _ _ => rfl
    | inc k =>
      have hk : s.incs k = .unborn := of_decide_eq_true hunborn
      refine h.of_eq rfl rfl fun _ j => ?_
      by_cases hj : j = k
      · simp only [State.create, setInc_incs, if_pos hj, loopHead_testing]
        rw [hj, hk]
        rfl
      · simp [State.create, hj]
  | join => exact h.of_eq rfl rfl fun _ _ => rfl
  | print => exact h.of_eq rfl (by simp [State.reached, Line.isReached]) fun _ _ => rfl

end Reported

/-! ### The last line -/

/-- `main` prints the final value of the counter as the last line. -/
structure Finished (s : State) : Prop where
  before : s.main ≠ .done → s.log.all (!Line.isFinal ·)
  after : s.main = .done → ∃ lines, s.log = lines ++ [.final s.count] ∧
    lines.all (!Line.isFinal ·)

/-- An `inc_count` prints no final value. -/
theorem IncStep.exists_log (hs : IncStep n limit s k s') :
    ∃ lines, s'.log = s.log ++ lines ∧ lines.all (!Line.isFinal ·) := by
  cases hs with
  | reached => exact ⟨_, rfl, rfl⟩
  | signal => exact ⟨_, rfl, rfl⟩
  | unlock => exact ⟨_, rfl, rfl⟩
  | _ => exact ⟨[], (List.append_nil _).symm, rfl⟩

/-- `watch_count` prints no final value. -/
theorem WatchStep.exists_log (hs : WatchStep limit s s') :
    ∃ lines, s'.log = s.log ++ lines ∧ lines.all (!Line.isFinal ·) := by
  cases hs with
  | start => exact ⟨_, rfl, rfl⟩
  | goWait => exact ⟨_, rfl, rfl⟩
  | pass => exact ⟨_, rfl, rfl⟩
  | woken => exact ⟨_, rfl, rfl⟩
  | unlock => exact ⟨_, rfl, rfl⟩
  | _ => exact ⟨[], (List.append_nil _).symm, rfl⟩

theorem Finished.of_thread (h : Finished s) (hdone : s.main ≠ .done) (hmain : s'.main = s.main)
    (hs : ∃ lines, s'.log = s.log ++ lines ∧ lines.all (!Line.isFinal ·)) : Finished s' := by
  obtain ⟨lines, hlog, hlines⟩ := hs
  refine ⟨fun _ => ?_, fun hd => absurd (hmain ▸ hd) hdone⟩
  rw [hlog, List.all_append, h.before hdone, hlines]
  rfl

theorem Lifecycle.not_done_of_inc (h : Lifecycle s) (hs : IncStep n limit s k s') :
    s.main ≠ .done := by
  intro hdone
  have hexit := h.exited_of_done hdone (.inc k)
  cases hs with
  | _ hpc => simp [State.exited, hpc] at hexit

theorem Lifecycle.not_done_of_watch (h : Lifecycle s) (hs : WatchStep limit s s') :
    s.main ≠ .done := by
  intro hdone
  have hexit := h.exited_of_done hdone .watch
  cases hs with
  | _ hpc => simp [State.exited, hpc] at hexit

theorem Finished.mainStep (h : Finished s) (hs : MainStep n s s') : Finished s' := by
  have hlog : ∀ t, (s.create n t).log = s.log := by
    intro t
    cases t <;> rfl
  cases hs with
  | @create t hpc =>
    have hnot : MainAt.afterCreate t ≠ .done := by
      revert t
      rintro (_ | k) -
      · decide
      · revert k
        decide
    refine ⟨fun _ => ?_, fun hd => absurd hd hnot⟩
    show (s.create n t).log.all _ = true
    rw [hlog]
    exact h.before (by simp [hpc])
  | @join t hpc hexit =>
    have hnot : MainAt.afterJoin t ≠ .done := by
      clear hpc hexit
      revert t
      rintro (_ | k)
      · decide
      · revert k
        decide
    exact ⟨fun _ => h.before (by simp [hpc]), fun hd => absurd hd hnot⟩
  | print hpc =>
    exact ⟨fun hd => absurd rfl hd, fun _ => ⟨s.log, rfl, h.before (by simp [hpc])⟩⟩

/-! ### Runs -/

/-- In every reachable state the final value has been printed once if `main` is done, and else not
at all. -/
theorem finished_of_run (hrun : (machine n limit).Run .init ts s) : Finished s := by
  have h : Inv n limit s ∧ Finished s := by
    refine hrun.invariant (P := fun s => Inv n limit s ∧ Finished s)
      ⟨inv_init n limit, fun _ => rfl, fun hd => by cases hd⟩ ?_
    intro s e s' ⟨hinv, hfin⟩ _ hstep
    have hs := step_of_machine hstep
    refine ⟨hinv.step hs, ?_⟩
    cases hs with
    | main hs => exact hfin.mainStep hs
    | inc hs => exact hfin.of_thread (hinv.not_done_of_inc hs) hs.main_eq hs.exists_log
    | watch hs => exact hfin.of_thread (hinv.not_done_of_watch hs) hs.main_eq hs.exists_log
    | spurious hpc =>
      refine hfin.of_thread (fun hdone => ?_) rfl ⟨[], (List.append_nil _).symm, rfl⟩
      have hexit := hinv.exited_of_done hdone .watch
      simp [State.exited, hpc] at hexit
  exact h.2

/-- In every reachable state the threshold has been reported exactly once if it has been reached and
tested, and else not at all. -/
theorem reported_of_run (hlimit : 0 < limit) (hrun : (machine n limit).Run .init ts s) :
    Reported limit s := by
  have h : Inv n limit s ∧ Reported limit s := by
    refine hrun.invariant (P := fun s => Inv n limit s ∧ Reported limit s)
      ⟨inv_init n limit, fun _ => rfl, fun _ _ _ => rfl, fun hle => ?_⟩ ?_
    · exact absurd (Nat.lt_of_lt_of_le hlimit hle) (Nat.lt_irrefl 0)
    · intro s e s' ⟨hinv, hrep⟩ _ hstep
      have hs := step_of_machine hstep
      refine ⟨hinv.step hs, ?_⟩
      cases hs with
      | main hs => exact hrep.mainStep hinv.toLifecycle hs
      | inc hs => exact hrep.incStep hinv.toCounter hs
      | watch hs => exact hrep.watchStep hinv.toCounter hs
      | spurious hpc => exact hrep.of_eq rfl rfl fun _ _ => rfl
  exact h.2

/-- **Correctness**: in every reachable state at most one thread is between locking and unlocking
the mutex, and no increment is lost.  When the program is done, the limit was within reach, the last
line is the final value of the counter, and it has been printed once that the threshold is
reached. -/
theorem no_lost_increment (hrun : (machine n limit).Run .init ts s) :
    (∀ t u, s.inside t = true → s.inside u = true → t = u) ∧
    s.count = s.incsAdded n + s.watch.added ∧
    (s.main = .done → limit ≤ 2 * n ∧
      ∃ lines, s.log = lines ++ [.final (2 * n + 125)] ∧ lines.all (!Line.isFinal ·) ∧
        (0 < limit → lines.countP Line.isReached = 1)) := by
  have hinv := inv_of_run hrun
  refine ⟨fun t u => hinv.guards.eq_of_inside, hinv.count_eq, fun hdone => ?_⟩
  obtain ⟨hadded, hw⟩ := hinv.added_of_done hdone
  have hcount := hinv.count_eq
  rw [hadded, hw] at hcount
  obtain ⟨lines, hlog, hlines⟩ := (finished_of_run hrun).after hdone
  have hlimit := hinv.limit_le (by rw [hw]; rfl)
  refine ⟨by omega, lines, by rw [hlog, hcount]; rfl, hlines, fun hpos => ?_⟩
  have hone : s.reached = 1 := by
    refine (reported_of_run hpos hrun).reported ?_ fun heq => ?_
    · rw [hcount]
      omega
    · have hval : s.count = 2 * n + 125 := hcount
      omega
  simpa [State.reached, hlog, Line.isReached] using hone

/-- One round and the limit 2: the waiting thread is woken for no reason after the first increment,
waits again and is woken by the second. -/
def schedule : List Event :=
  .replicate 3 .main ++ .replicate 4 (.thread .watch) ++ .replicate 5 (.thread (.inc 0)) ++
    [.spurious] ++ .replicate 3 (.thread .watch) ++ .replicate 6 (.thread (.inc 1)) ++
    .replicate 5 (.thread .watch) ++ .replicate 4 .main

theorem no_lost_increment_schedule : ∃ ts s, (machine 1 2).Run .init ts s ∧
    Machine.events ts = schedule ∧ s.count = s.incsAdded 1 + s.watch.added ∧
    ∃ lines, s.log = lines ++ [.final 127] ∧ lines.countP Line.isReached = 1 := by
  obtain ⟨ts, s, hrun, hevents, hdone⟩ := Machine.exists_run_of_exec (machine 1 2) .init schedule
    (fun r => r.2.main = .done) (by decide)
  obtain ⟨-, hcount, hend⟩ := no_lost_increment hrun
  obtain ⟨-, lines, hlog, -, hone⟩ := hend (of_decide_eq_true hdone)
  exact ⟨ts, s, hrun, hevents, hcount, lines, hlog, hone (by decide)⟩

end Camkes.RumprunPthreads
