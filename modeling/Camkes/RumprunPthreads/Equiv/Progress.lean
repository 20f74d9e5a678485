import Camkes.Machine.Progress
import Camkes.RumprunPthreads.Equiv.Main

/-!
# Progress of `rumprun_pthreads`

If the limit is at most the number of increments, no signal is lost: as long as the program is not
done, `main` or some thread can take a step (`Inv.exists_ok_of_not_done`).  `State.remaining` bounds
the steps that are left, so that only a thread that wakes up for no reason delays the end
(`run_terminates`), and the end can be reached from every reachable state
(`exists_run_done_iff`).
-/

namespace Camkes.RumprunPthreads

open Machine (Decreases)

variable {n limit : ℕ} {s s' : State} {k : Fin 2} {ts : List (Transition State Event)}

/-! ### There is always a step -/

/-- An `inc_count` inside its critical section can go on. -/
theorem Inv.ok_of_inc_inside (h : (s.incs k).inside = true) :
    (machine n limit).ok s (.thread (.inc k)) := by
  show (s.stepInc n limit k).isSome = true
  rw [State.stepInc]
  split
  · rename_i hpc
    rw [hpc] at h
    cases h
  · rename_i hpc
    rw [hpc] at h
    cases h
  · rfl
  · rfl
  · split_ifs <;> rfl
  · rfl
  · rfl
  · rename_i hpc
    rw [hpc] at h
    cases h

theorem Inv.ok_of_watch_inside (h : s.watch.inside = true) :
    (machine n limit).ok s (.thread .watch) := by
  show (s.stepWatch limit).isSome = true
  cases hpc : s.watch <;> simp [State.stepWatch, hpc, WatchAt.inside] at h ⊢
  split_ifs <;> rfl

theorem IncAt.cases_of_outside {p : IncAt} (h : p.inside = false) :
    p = .unborn ∨ (∃ i, p = .lock i) ∨ p = .exited := by
  cases p <;> simp_all [IncAt.inside]

theorem WatchAt.cases_of_outside {w : WatchAt} (h : w.inside = false) :
    w = .unborn ∨ w = .start ∨ w = .lock ∨ w = .woken ∨ w = .waiting ∨ w = .exited := by
  cases w <;> simp_all [WatchAt.inside]

namespace Inv

variable (h : Inv n limit s)
include h

/-- All other threads are done, so a waiting thread has missed its signal. -/
theorem not_waiting (hlimit : limit ≤ 2 * n) (hexit : ∀ k, s.incs k = .exited) :
    s.watch ≠ .waiting := by
  intro hw
  have hcount := h.count_eq
  rw [State.incsAdded, hexit 0, hexit 1, hw] at hcount
  have hcount' : s.count = n + n + 0 := hcount
  rcases h.wakeup (.inr hw) with hlt | ⟨-, k, hk⟩
  · omega
  · rw [hexit k] at hk
    cases hk

/-- The mutex is free. -/
theorem exists_ok_of_outside (hlimit : limit ≤ 2 * n) (hborn : ∀ t, s.unborn t = false)
    (hout : ∀ t, s.inside t = false) (hexit : ∃ t, s.exited t = false) :
    ∃ t, (machine n limit).ok s (.thread t) := by
  have hfree : s.owner = none := by
    cases howner : s.owner with
    | none => rfl
    | some t =>
      have hin := (h.guards t).mp howner
      rw [hout t] at hin
      cases hin
  by_cases hlock : ∃ k i, s.incs k = .lock i
  · obtain ⟨k, i, hpc⟩ := hlock
    exact ⟨.inc k, by simp [machine, State.step, State.stepInc, hpc, hfree]⟩
  · have hincs : ∀ k, s.incs k = .exited := by
      intro k
      rcases IncAt.cases_of_outside (hout (.inc k)) with hpc | ⟨i, hpc⟩ | hpc
      · have hk := hborn (.inc k)
        simp [State.unborn, hpc] at hk
      · exact absurd ⟨k, i, hpc⟩ hlock
      · exact hpc
    refine ⟨.watch, ?_⟩
    show (s.stepWatch limit).isSome = true
    rcases WatchAt.cases_of_outside (hout .watch) with hw | hw | hw | hw | hw | hw
    · have hb := hborn .watch
      simp [State.unborn, hw] at hb
    · simp [State.stepWatch, hw]
    · simp [State.stepWatch, hw, hfree]
    · simp [State.stepWatch, hw, hfree]
    · exact absurd hw (h.not_waiting hlimit hincs)
    · obtain ⟨t, ht⟩ := hexit
      cases t with
      | watch => simp [State.exited, hw] at ht
      | inc k => simp [State.exited, hincs k] at ht

/-- **No deadlock** -/
theorem exists_ok_of_not_done (hlimit : limit ≤ 2 * n) (hdone : s.main ≠ .done) :
    ∃ e, e ≠ .spurious ∧ (machine n limit).ok s e := by
  cases hmain : s.main with
  | create t => exact ⟨.main, by simp, by simp [machine, State.step, State.stepMain, hmain]⟩
  | print => exact ⟨.main, by simp, by simp [machine, State.step, State.stepMain, hmain]⟩
  | done => exact absurd hmain hdone
  | join t =>
    by_cases hexit : s.exited t = true
    · exact ⟨.main, by simp, by simp [machine, State.step, State.stepMain, hmain, hexit]⟩
    · have hborn : ∀ u, s.unborn u = false := by
        intro u
        have hlt := u.index_lt
        rw [Bool.eq_false_iff, Ne, h.unborn_iff, hmain]
        show ¬ 3 ≤ u.index
        omega
      by_cases hin : ∃ u, s.inside u = true
      · obtain ⟨u, hu⟩ := hin
        refine ⟨.thread u, by simp, ?_⟩
        cases u with
        | watch => exact ok_of_watch_inside hu
        | inc k => exact ok_of_inc_inside hu
      · have hout : ∀ u, s.inside u = false := fun u =>
          (Bool.eq_false_iff).mpr fun hu => hin ⟨u, hu⟩
        obtain ⟨u, hu⟩ := h.exists_ok_of_outside hlimit hborn hout
          ⟨t, (Bool.eq_false_iff).mpr hexit⟩
        exact ⟨.thread u, by simp, hu⟩

end Inv

/-! ### How much is left to do -/

def IncAt.remaining (n : ℕ) : IncAt → ℕ
  | unborn => 10 * n
  | lock i => 10 * (n - i)
  | load i => 10 * (n - i) - 1
  | store i _ => 10 * (n - i) - 2
  | test i => 10 * (n - i) - 3
  -- the signal may wake the other thread
  | signal i => 10 * (n - i) - 4
  | unlock i => 10 * (n - i) - 8
  | exited => 0

def WatchAt.remaining : WatchAt → ℕ
  | unborn | start => 9
  | lock | woken => 8
  | test => 7
  | wait => 6
  | waiting => 5
  | load => 3
  | store _ => 2
  | unlock => 1
  | exited => 0

def MainAt.remaining : MainAt → ℕ
  | create t => 7 - t.index
  | join t => 4 - t.index
  | print => 1
  | done => 0

/-- A bound of the steps that are left. -/
def State.remaining (n : ℕ) (s : State) : ℕ :=
  s.main.remaining + s.watch.remaining + ((s.incs 0).remaining n + (s.incs 1).remaining n)

theorem loopHead_remaining (n i : ℕ) : (loopHead n i).remaining n = 10 * (n - i) := by
  rw [loopHead]
  split_ifs with hi
  · rfl
  · show 0 = 10 * (n - i)
    omega

theorem condSignal_remaining (w : WatchAt) : (condSignal w).remaining ≤ w.remaining + 3 := by
  cases w <;> simp [condSignal, WatchAt.remaining]

/-- A step of one thread. -/
theorem remaining_incStep (hs : IncStep n limit s k s') (hrange : (s.incs k).InRange n) :
    s'.remaining n < s.remaining n := by
  have hmain : s'.main = s.main := hs.main_eq
  have hk : s'.watch.remaining + (s'.incs k).remaining n <
      s.watch.remaining + (s.incs k).remaining n := by
    cases hs with
    | signal hpc =>
      have hw := condSignal_remaining s.watch
      rw [hpc] at hrange ⊢
      simp [IncAt.InRange, IncAt.remaining] at hrange ⊢
      omega
    | @unlock i hpc =>
      have hlt : i < n := by rwa [hpc] at hrange
      have hrem := loopHead_remaining n (i + 1)
      have hunlock : (s.incs k).remaining n = 10 * (n - i) - 8 := by rw [hpc]; rfl
      simp [hrem, hunlock]
      omega
    | _ hpc =>
      rw [hpc] at hrange ⊢
      simp [IncAt.InRange, IncAt.remaining] at hrange ⊢
      omega
  rw [State.remaining, State.remaining, hmain]
  rcases eq_zero_or_one k with rfl | rfl
  · rw [hs.incs_of_ne (j := 1) (by decide)]
    omega
  · rw [hs.incs_of_ne (j := 0) (by decide)]
    omega

/-- A step of `watch_count` brings the end nearer. -/
theorem remaining_watchStep (hs : WatchStep limit s s') : s'.remaining n < s.remaining n := by
  have hw : s'.watch.remaining < s.watch.remaining := by
    cases hs with
    | _ hpc => simp [WatchAt.remaining, hpc]
  have hmain : s'.main = s.main := hs.main_eq
  rw [State.remaining, State.remaining, hmain, hs.incs_eq]
  omega

/-- Creating a thread leaves the bound of the threads' steps as it is. -/
theorem remaining_create {t : Thread} (hunborn : s.unborn t = true) :
    (s.create n t).watch.remaining +
        (((s.create n t).incs 0).remaining n + ((s.create n t).incs 1).remaining n) =
      s.watch.remaining + ((s.incs 0).remaining n + (s.incs 1).remaining n) := by
  cases t with
  | watch =>
    have hw : s.watch = .unborn := of_decide_eq_true hunborn
    simp [State.create, WatchAt.remaining, hw]
  | inc k =>
    have hk : (s.incs k).remaining n = 10 * n := by
      rw [show s.incs k = .unborn from of_decide_eq_true hunborn]
      rfl
    have hrem := loopHead_remaining n 0
    rcases eq_zero_or_one k with rfl | rfl
    · simp [State.create, hrem, hk]
    · simp [State.create, hrem, hk]

/-- A step of `main` brings the end nearer. -/
theorem remaining_mainStep (h : Inv n limit s) (hs : MainStep n s s') :
    s'.remaining n < s.remaining n := by
  cases hs with
  | @create t hpc =>
    have hunborn : s.unborn t = true := by
      rw [h.unborn_iff, hpc]
      exact Nat.le.refl
    have hrem := remaining_create (n := n) hunborn
    have hmain : (MainAt.afterCreate t).remaining < s.main.remaining := by
      rw [hpc]
      clear hpc hunborn hrem
      revert t
      rintro (_ | k)
      · decide
      · revert k
        decide
    show (MainAt.afterCreate t).remaining + (s.create n t).watch.remaining +
      (((s.create n t).incs 0).remaining n + ((s.create n t).incs 1).remaining n) <
      s.main.remaining + _ + _
    omega
  | @join t hpc hexit =>
    have hmain : (MainAt.afterJoin t).remaining < s.main.remaining := by
      rw [hpc]
      clear hpc hexit
      revert t
      rintro (_ | k)
      · decide
      · revert k
        decide
    exact Nat.add_lt_add_right (Nat.add_lt_add_right hmain _) _
  | print hpc =>
    have hmain : MainAt.done.remaining < s.main.remaining := by
      rw [hpc]
      decide
    exact Nat.add_lt_add_right (Nat.add_lt_add_right hmain _) _

/-- Every step brings the end nearer, but for a wakeup for no reason. -/
theorem decreases (n limit : ℕ) :
    (machine n limit).Decreases (Inv n limit) (· ≠ .spurious) (State.remaining n) 3 where
  preserved _ _ _ h _ hstep := h.step (step_of_machine hstep)
  lt_of_work s e s' h _ hstep hwork := by
    cases step_of_machine hstep with
    | main hs => exact remaining_mainStep h hs
    | inc hs => exact remaining_incStep hs (h.inRange _)
    | watch hs => exact remaining_watchStep hs
    | spurious hpc => exact absurd rfl (of_decide_eq_true hwork)
  le_of_not_work s e s' _ _ hstep hnot := by
    have he : e = .spurious := by simpa using hnot
    subst he
    cases step_of_machine hstep with
    | spurious hpc =>
      rw [State.remaining, State.remaining, hpc]
      show s.main.remaining + 8 + ((s.incs 0).remaining n + (s.incs 1).remaining n) ≤
        s.main.remaining + 5 + ((s.incs 0).remaining n + (s.incs 1).remaining n) + 3
      omega

/-! ### Runs -/

/-- **Termination**: apart from the wakeups for no reason, a run has at most `20 * n + 16` steps,
and three more for each of them.  If the limit can be reached, such a run only ends when the program
is done. -/
theorem run_terminates (hlimit : limit ≤ 2 * n) (hrun : (machine n limit).Run .init ts s) :
    (Machine.events ts).countP (· ≠ .spurious) ≤
        20 * n + 16 + 3 * (Machine.events ts).countP (· = .spurious) ∧
      (s.main ≠ .done → ∃ e ≠ .spurious, (machine n limit).ok s e) := by
  refine ⟨?_, (inv_of_run hrun).exists_ok_of_not_done hlimit⟩
  have hle := (decreases n limit).countP_add_le (inv_init n limit) hrun
  have hinit : State.init.remaining n = 7 + 9 + (10 * n + 10 * n) := rfl
  have hnot : (fun e : Event => !decide (e ≠ .spurious)) = fun e => decide (e = .spurious) := by
    ext e
    simp
  rw [hinit, hnot] at hle
  omega

/-- A waiting thread has been woken for no reason after 12 steps. -/
theorem run_terminates_spurious : ∃ ts s, (machine 1 2).Run .init ts s ∧
    (Machine.events ts).countP (· ≠ .spurious) ≤ 39 ∧
    ∃ e ≠ .spurious, (machine 1 2).ok s e := by
  obtain ⟨ts, s, hrun, -, hp⟩ := Machine.exists_run_of_exec (machine 1 2) .init
    (.replicate 3 .main ++ .replicate 4 (.thread .watch) ++ .replicate 5 (.thread (.inc 0)) ++
      [.spurious])
    (fun r => r.2.main ≠ .done ∧ (Machine.events r.1).countP (· = .spurious) = 1) (by decide)
  obtain ⟨hdone, hone⟩ := of_decide_eq_true hp
  obtain ⟨hle, hok⟩ := run_terminates (by decide) hrun
  refine ⟨ts, s, hrun, ?_, hok hdone⟩
  rw [hone] at hle
  exact hle

/-- **Progress**: every reachable state can be followed by a run in which the program gets done, if
and only if the limit can be reached. -/
theorem exists_run_done_iff (hrun : (machine n limit).Run .init ts s) :
    (∃ us s', (machine n limit).Run s us s' ∧ s'.main = .done) ↔ limit ≤ 2 * n := by
  have hinv := inv_of_run hrun
  constructor
  · rintro ⟨us, s', hrun', hdone⟩
    have h' := inv_of_run (hrun.append hrun')
    obtain ⟨hadded, hw⟩ := h'.added_of_done hdone
    have hle := h'.limit_le (by rw [hw]; rfl)
    omega
  · intro hlimit
    have hprogress : ∀ s, Inv n limit s → ¬ s.main = .done →
        ∃ e : Event, decide (e ≠ .spurious) = true ∧ (machine n limit).ok s e ∧
          ((machine n limit).step s e).isSome := by
      intro s h hdone
      obtain ⟨e, he, hok⟩ := h.exists_ok_of_not_done hlimit hdone
      exact ⟨e, decide_eq_true he, hok, hok⟩
    obtain ⟨us, s', hrun', hdone, -⟩ := (decreases n limit).exists_run hprogress hinv
    exact ⟨us, s', hrun', hdone⟩

/-- The first steps of a schedule, up to a state where the waiting thread has been woken for no
reason. -/
def firstSteps : List Event :=
  .replicate 3 .main ++ .replicate 4 (.thread .watch) ++ .replicate 5 (.thread (.inc 0)) ++
    [.spurious]

/-- After these steps the source's own limit can still be reached, and with one round the limit 3
cannot. -/
theorem exists_run_done_iff_firstSteps :
    (∃ ts s, (machine tcount countLimit).Run .init ts s ∧ Machine.events ts = firstSteps ∧
      ∃ us s', (machine tcount countLimit).Run s us s' ∧ s'.main = .done) ∧
    ∃ ts s, (machine 1 3).Run .init ts s ∧ Machine.events ts = firstSteps ∧
      ¬ ∃ us s', (machine 1 3).Run s us s' ∧ s'.main = .done := by
  constructor
  · obtain ⟨ts, s, hrun, hevents, -⟩ := Machine.exists_run_of_exec (machine tcount countLimit)
      .init firstSteps (fun r => r.2.count = 1) (by decide)
    exact ⟨ts, s, hrun, hevents, (exists_run_done_iff hrun).mpr (by decide)⟩
  · obtain ⟨ts, s, hrun, hevents, -⟩ := Machine.exists_run_of_exec (machine 1 3) .init firstSteps
      (fun r => r.2.count = 1) (by decide)
    exact ⟨ts, s, hrun, hevents, fun h => absurd ((exists_run_done_iff hrun).mp h) (by decide)⟩

end Camkes.RumprunPthreads
