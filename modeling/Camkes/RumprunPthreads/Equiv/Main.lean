import Camkes.RumprunPthreads.Equiv.Counter

/-!
# `main` of `rumprun_pthreads`

`main` creates and joins the threads one after the other.  With its steps, `Inv` holds in all
reachable states (`inv_of_run`).
-/

namespace Camkes.RumprunPthreads

variable {n limit : ℕ} {s s' : State} {k : Fin 2} {t u : Thread}

/-! ### Steps -/

def MainAt.afterCreate (t : Thread) : MainAt :=
  match t.next with
  | some u => .create u
  | none => .join .watch

def MainAt.afterJoin (t : Thread) : MainAt :=
  match t.next with
  | some u => .join u
  | none => .print

/-- The steps of `main`: it creates a thread, joins one that has exited, or prints the final value.
-/
inductive MainStep (n : ℕ) (s : State) : State → Prop
  | create {t : Thread} (hpc : s.main = .create t) :
      MainStep n s { s.create n t with main := .afterCreate t }
  | join {t : Thread} (hpc : s.main = .join t) (hexit : s.exited t = true) :
      MainStep n s { s with main := .afterJoin t }
  | print (hpc : s.main = .print) : MainStep n s { s.print [.final s.count] with main := .done }

/-- What a step of `main` can do. -/
theorem mainStep_of_stepMain (h : s.stepMain n = some s') : MainStep n s s' := by
  rw [State.stepMain] at h
  split at h
  · rw [← Option.some.inj h]
    exact .create ‹_›
  · simp only at h
    split_ifs at h with hexit
    rw [← Option.some.inj h]
    exact .join ‹_› hexit
  · rw [← Option.some.inj h]
    exact .print ‹_›
  · cases h

/-- A step of the program. -/
inductive Step (n limit : ℕ) (s : State) : Event → State → Prop
  | main {s' : State} (h : MainStep n s s') : Step n limit s .main s'
  | inc {k : Fin 2} {s' : State} (h : IncStep n limit s k s') :
      Step n limit s (.thread (.inc k)) s'
  | watch {s' : State} (h : WatchStep limit s s') : Step n limit s (.thread .watch) s'
  | spurious (hpc : s.watch = .waiting) :
      Step n limit s .spurious { s with watch := .woken }

/-- What a step of the machine can do. -/
theorem step_of_machine {e : Event} (h : (machine n limit).step s e = some s') :
    Step n limit s e s' := by
  cases e with
  | main => exact .main (mainStep_of_stepMain h)
  | thread t =>
    cases t with
    | watch => exact .watch (watchStep_of_stepWatch h)
    | inc k => exact .inc (incStep_of_stepInc h)
  | spurious =>
    change (if s.watch = .waiting then some { s with watch := WatchAt.woken } else none) = _ at h
    split_ifs at h with hpc
    rw [← Option.some.inj h]
    exact .spurious hpc

/-! ### The threads that `main` has created and joined -/

/-- The number of threads that have been created. -/
def MainAt.created : MainAt → ℕ
  | create t => t.index
  | _ => 3

def MainAt.joined : MainAt → ℕ
  | create _ => 0
  | join t => t.index
  | _ => 3

def State.unborn (s : State) : Thread → Bool
  | .watch => s.watch = .unborn
  | .inc k => s.incs k = .unborn

theorem created_afterCreate (t : Thread) : (MainAt.afterCreate t).created = t.index + 1 := by
  revert t
  rintro (_ | k)
  · rfl
  · revert k
    decide

theorem joined_afterCreate (t : Thread) : (MainAt.afterCreate t).joined = 0 := by
  revert t
  rintro (_ | k)
  · rfl
  · revert k
    decide

theorem created_afterJoin (t : Thread) : (MainAt.afterJoin t).created = 3 := by
  revert t
  rintro (_ | k)
  · rfl
  · revert k
    decide

theorem joined_afterJoin (t : Thread) : (MainAt.afterJoin t).joined = t.index + 1 := by
  revert t
  rintro (_ | k)
  · rfl
  · revert k
    decide

/-- Different threads are created at different places. -/
theorem Thread.index_inj (h : t.index = u.index) : t = u := by
  cases t with
  | watch =>
    cases u with
    | watch => rfl
    | inc j => cases h
  | inc k =>
    cases u with
    | watch => cases h
    | inc j =>
      have hkj : (k : ℕ) + 1 = j + 1 := h
      rw [Fin.ext (Nat.succ.inj hkj)]

theorem Thread.index_lt (t : Thread) : t.index < 3 := by
  cases t with
  | watch => decide
  | inc k =>
    show (k : ℕ) + 1 < 3
    omega

/-- The threads that `main` has not created are not there yet, and those that it has joined have
exited. -/
structure Lifecycle (s : State) : Prop where
  unborn_iff : ∀ t, s.unborn t = true ↔ s.main.created ≤ t.index
  exited : ∀ t, t.index < s.main.joined → s.exited t = true

theorem loopHead_ne_unborn (n i : ℕ) : loopHead n i ≠ .unborn := by
  rw [loopHead]
  split_ifs <;> simp

/-- A step of a thread that has been created and has not exited is none for the lives of the others.
-/
theorem Lifecycle.of_thread (h : Lifecycle s) (hmain : s'.main = s.main)
    (hothers : ∀ u ≠ t, s'.unborn u = s.unborn u ∧ s'.exited u = s.exited u)
    (hunborn : s.unborn t = false) (hunborn' : s'.unborn t = false)
    (hexit : s.exited t = false) : Lifecycle s' where
  unborn_iff u := by
    rw [hmain]
    by_cases hu : u = t
    · subst hu
      rw [hunborn', ← h.unborn_iff, hunborn]
    · rw [(hothers u hu).1]
      exact h.unborn_iff u
  exited u hlt := by
    rw [hmain] at hlt
    have hu := h.exited u hlt
    rwa [(hothers u ?_).2]
    rintro rfl
    rw [hexit] at hu
    cases hu

theorem condSignal_eq_unborn_iff {w : WatchAt} : condSignal w = .unborn ↔ w = .unborn := by
  cases w <;> simp [condSignal]

theorem condSignal_eq_exited_iff {w : WatchAt} : condSignal w = .exited ↔ w = .exited := by
  cases w <;> simp [condSignal]

/-- A step of `inc_count` keeps the order in which threads are created and joined. -/
theorem Lifecycle.incStep (h : Lifecycle s) (hs : IncStep n limit s k s') : Lifecycle s' := by
  refine h.of_thread (t := .inc k) hs.main_eq (fun u hu => ?_) ?_ ?_ ?_
  · cases u with
    | inc j =>
      have hj : j ≠ k := fun hj => hu (congrArg Thread.inc hj)
      simp [State.unborn, State.exited, hs.incs_of_ne hj]
    | watch =>
      cases hs with
      | signal =>
        simp [State.unborn, State.exited, condSignal_eq_unborn_iff, condSignal_eq_exited_iff]
      | _ => exact ⟨rfl, rfl⟩
  · cases hs with
    | _ hpc => simp [State.unborn, hpc]
  · cases hs with
    | unlock => simp [State.unborn, loopHead_ne_unborn]
    | _ => simp [State.unborn]
  · cases hs with
    | _ hpc => simp [State.exited, hpc]

/-- A step of `watch_count` keeps the order in which threads are created and joined. -/
theorem Lifecycle.watchStep (h : Lifecycle s) (hs : WatchStep limit s s') : Lifecycle s' := by
  refine h.of_thread (t := .watch) hs.main_eq (fun u hu => ?_) ?_ ?_ ?_
  · cases u with
    | inc j => simp [State.unborn, State.exited, hs.incs_eq]
    | watch => exact absurd rfl hu
  · cases hs with
    | _ hpc => simp [State.unborn, hpc]
  · cases hs <;> rfl
  · cases hs with
    | _ hpc => simp [State.exited, hpc]

theorem Lifecycle.spurious (h : Lifecycle s) (hpc : s.watch = .waiting) :
    Lifecycle { s with watch := .woken } := by
  refine h.of_thread (t := .watch) rfl (fun u hu => ?_) ?_ rfl ?_
  · cases u with
    | inc j => exact ⟨rfl, rfl⟩
    | watch => exact absurd rfl hu
  · simp [State.unborn, hpc]
  · simp [State.exited, hpc]

theorem unborn_create_self (n : ℕ) (s : State) (t : Thread) :
    (s.create n t).unborn t = false := by
  cases t with
  | watch => rfl
  | inc k => simp [State.create, State.unborn, loopHead_ne_unborn]

/-- Creating a thread leaves the others as they are. -/
theorem unborn_create_of_ne (n : ℕ) (s : State) (h : u ≠ t) :
    (s.create n t).unborn u = s.unborn u := by
  cases t with
  | watch =>
    cases u with
    | watch => exact absurd rfl h
    | inc j => rfl
  | inc k =>
    cases u with
    | watch => rfl
    | inc j =>
      have hj : j ≠ k := fun hj => h (congrArg Thread.inc hj)
      simp [State.create, State.unborn, hj]

/-- `main` creates a thread that is not there yet, and waits for one it has created. -/
theorem Lifecycle.mainStep (h : Lifecycle s) (hs : MainStep n s s') : Lifecycle s' := by
  cases hs with
  | @create t hpc =>
    refine ⟨fun u => ?_, fun u hlt => ?_⟩
    · have hiff := h.unborn_iff u
      rw [hpc] at hiff
      show (s.create n t).unborn u = true ↔ (MainAt.afterCreate t).created ≤ u.index
      rw [created_afterCreate]
      by_cases hu : u = t
      · subst hu
        rw [unborn_create_self]
        simp
      · have hne : u.index ≠ t.index := fun h => hu (Thread.index_inj h)
        rw [unborn_create_of_ne n s hu, hiff]
        show t.index ≤ u.index ↔ _
        omega
    · have hlt' : u.index < (MainAt.afterCreate t).joined := hlt
      rw [joined_afterCreate] at hlt'
      cases hlt'
  | @join t hpc hexit =>
    refine ⟨fun u => ?_, fun u hlt => ?_⟩
    · have hiff := h.unborn_iff u
      rw [hpc] at hiff
      show s.unborn u = true ↔ (MainAt.afterJoin t).created ≤ u.index
      rw [created_afterJoin]
      exact hiff
    · have hlt' : u.index < (MainAt.afterJoin t).joined := hlt
      rw [joined_afterJoin] at hlt'
      by_cases hu : u = t
      · subst hu
        exact hexit
      · have hne : u.index ≠ t.index := fun h => hu (Thread.index_inj h)
        refine h.exited u ?_
        rw [hpc]
        show u.index < t.index
        omega
  | print hpc =>
    refine ⟨fun u => ?_, fun u _ => h.exited u ?_⟩
    · have hiff := h.unborn_iff u
      rwa [hpc] at hiff
    · rw [hpc]
      exact u.index_lt

/-! ### The counter -/

/-- Creating `watch_count` touches no counter. -/
theorem Counter.create_watch (h : Counter n limit s) (hw : s.watch = .unborn) :
    Counter n limit { s with watch := .start } where
  guards := by
    refine h.guards.move (t := .watch) (fun u hu => ?_) (.keep rfl ?_)
    · cases u with
      | watch => exact absurd rfl hu
      | inc j => rfl
    · simp [State.inside, WatchAt.inside, hw]
  count_eq := by
    have hcount := h.count_eq
    rwa [hw] at hcount
  inRange := h.inRange
  inc_read := h.inc_read
  watch_read v hv := by cases hv
  limit_le hp := by cases hp
  wakeup hw' := by simp at hw'

/-- A thread that is just created has added nothing. -/
theorem incsAdded_create (n : ℕ) (hk : s.incs k = .unborn) :
    (s.setInc k (loopHead n 0)).incsAdded n = s.incsAdded n := by
  have hadded : (loopHead n 0).added n = IncAt.unborn.added n := by
    rw [loopHead]
    split_ifs with hn
    · rfl
    · show n = 0
      omega
  rcases eq_zero_or_one k with rfl | rfl
  · simp [State.incsAdded, hadded, hk]
  · simp [State.incsAdded, hadded, hk]

/-- Creating an `inc_count` touches no counter. -/
theorem Counter.create_inc (h : Counter n limit s) (hk : s.incs k = .unborn) :
    Counter n limit (s.setInc k (loopHead n 0)) where
  guards := by
    refine h.guards.move (t := .inc k) (fun u hu => ?_) (.keep rfl ?_)
    · cases u with
      | watch => rfl
      | inc j =>
        have hj : j ≠ k := fun hj => hu (congrArg Thread.inc hj)
        simp [State.inside, hj]
    · simp only [State.inside, setInc_incs, if_pos, loopHead_inside, hk]
      rfl
  count_eq := by
    rw [incsAdded_create n hk]
    exact h.count_eq
  inRange j := by
    by_cases hj : j = k
    · simp [hj, loopHead_inRange]
    · simpa [hj] using h.inRange j
  inc_read j i v hv := by
    by_cases hj : j = k
    · simp [hj, loopHead] at hv
      split_ifs at hv
    · simp [hj] at hv
      exact h.inc_read j i v hv
  watch_read := h.watch_read
  limit_le := by
    rw [incsAdded_create n hk]
    exact h.limit_le
  wakeup hw := by
    rcases h.wakeup hw with hlt | ⟨heq, j, hj⟩
    · exact .inl hlt
    · refine .inr ⟨heq, j, ?_⟩
      have hne : j ≠ k := by
        rintro rfl
        rw [hk] at hj
        cases hj
      simpa [hne] using hj

theorem Counter.create (h : Counter n limit s) (hunborn : s.unborn t = true) :
    Counter n limit (s.create n t) := by
  cases t with
  | watch => exact h.create_watch (of_decide_eq_true hunborn)
  | inc k => exact h.create_inc (of_decide_eq_true hunborn)

/-- What holds in every reachable state. -/
structure Inv (n limit : ℕ) (s : State) : Prop extends Counter n limit s, Lifecycle s

/-- `main` keeps the invariant. -/
theorem Inv.mainStep (h : Inv n limit s) (hs : MainStep n s s') : Inv n limit s' := by
  refine ⟨?_, h.toLifecycle.mainStep hs⟩
  cases hs with
  | @create t hpc =>
    have hunborn : s.unborn t = true := by
      rw [h.unborn_iff, hpc]
      exact Nat.le.refl
    have hc := h.toCounter.create hunborn
    exact ⟨hc.guards, hc.count_eq, hc.inRange, hc.inc_read, hc.watch_read, hc.limit_le, hc.wakeup⟩
  | join => exact ⟨h.guards, h.count_eq, h.inRange, h.inc_read, h.watch_read, h.limit_le, h.wakeup⟩
  | print => exact ⟨h.guards, h.count_eq, h.inRange, h.inc_read, h.watch_read, h.limit_le, h.wakeup⟩

theorem Inv.step {e : Event} (h : Inv n limit s) (hs : Step n limit s e s') : Inv n limit s' := by
  cases hs with
  | main hs => exact h.mainStep hs
  | inc hs => exact ⟨h.toCounter.incStep hs, h.toLifecycle.incStep hs⟩
  | watch hs => exact ⟨h.toCounter.watchStep hs, h.toLifecycle.watchStep hs⟩
  | spurious hpc => exact ⟨h.toCounter.spurious hpc, h.toLifecycle.spurious hpc⟩

theorem inv_init (n limit : ℕ) : Inv n limit .init where
  guards t := by cases t <;> simp [State.init, State.inside, WatchAt.inside, IncAt.inside]
  count_eq := rfl
  inRange _ := trivial
  inc_read _ _ _ h := by cases h
  watch_read _ h := by cases h
  limit_le h := by cases h
  wakeup h := by simp [State.init] at h
  unborn_iff t := by cases t <;> simp [State.init, State.unborn, MainAt.created, Thread.index]
  exited _ h := by cases h

/-- The invariant holds in every reachable state. -/
theorem inv_of_run {ts : List (Transition State Event)} (hrun : (machine n limit).Run .init ts s) :
    Inv n limit s :=
  hrun.invariant (inv_init n limit) fun _ _ _ h _ hstep => h.step (step_of_machine hstep)

/-! ### The end -/

theorem Lifecycle.exited_of_done (h : Lifecycle s) (hdone : s.main = .done) (t : Thread) :
    s.exited t = true := by
  refine h.exited t ?_
  rw [hdone]
  exact t.index_lt

/-- When `main` is done, each `inc_count` has added its `n` rounds. -/
theorem Inv.added_of_done (h : Inv n limit s) (hdone : s.main = .done) :
    s.incsAdded n = 2 * n ∧ s.watch = .exited := by
  have hw : s.watch = .exited := of_decide_eq_true (h.exited_of_done hdone .watch)
  have h0 : s.incs 0 = .exited := of_decide_eq_true (h.exited_of_done hdone (.inc 0))
  have h1 : s.incs 1 = .exited := of_decide_eq_true (h.exited_of_done hdone (.inc 1))
  refine ⟨?_, hw⟩
  rw [State.incsAdded, h0, h1]
  show n + n = 2 * n
  omega

end Camkes.RumprunPthreads
