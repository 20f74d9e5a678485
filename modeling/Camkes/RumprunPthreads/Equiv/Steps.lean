import Camkes.Machine.Locking
import Camkes.RumprunPthreads.Basic

/-!
# Steps of the threads

`IncStep` and `WatchStep` list what a step of a thread can do, one constructor for each place in the
source; all invariants are proved from them.  The first is that the mutex guards the critical
sections (`guards_incStep`, `guards_watchStep`).
-/

namespace Camkes.RumprunPthreads

open Locking (Guards)

variable {n limit : ℕ} {s s' : State} {k : Fin 2}

/-! ### Steps -/

@[simp, grind =] theorem setInc_incs (s : State) (k j : Fin 2) (p : IncAt) :
    (s.setInc k p).incs j = if j = k then p else s.incs j :=
  Function.update_apply ..

@[simp, grind =] theorem setInc_count (s : State) (k : Fin 2) (p : IncAt) :
    (s.setInc k p).count = s.count := rfl

@[simp, grind =] theorem setInc_owner (s : State) (k : Fin 2) (p : IncAt) :
    (s.setInc k p).owner = s.owner := rfl

@[simp, grind =] theorem setInc_main (s : State) (k : Fin 2) (p : IncAt) :
    (s.setInc k p).main = s.main := rfl

@[simp, grind =] theorem setInc_watch (s : State) (k : Fin 2) (p : IncAt) :
    (s.setInc k p).watch = s.watch := rfl

@[simp, grind =] theorem setInc_log (s : State) (k : Fin 2) (p : IncAt) :
    (s.setInc k p).log = s.log := rfl

@[simp, grind =] theorem print_incs (s : State) (lines : List Line) :
    (s.print lines).incs = s.incs := rfl

@[simp, grind =] theorem print_count (s : State) (lines : List Line) :
    (s.print lines).count = s.count := rfl

@[simp, grind =] theorem print_owner (s : State) (lines : List Line) :
    (s.print lines).owner = s.owner := rfl

@[simp, grind =] theorem print_main (s : State) (lines : List Line) :
    (s.print lines).main = s.main := rfl

@[simp, grind =] theorem print_watch (s : State) (lines : List Line) :
    (s.print lines).watch = s.watch := rfl

@[simp, grind =] theorem print_log (s : State) (lines : List Line) :
    (s.print lines).log = s.log ++ lines := rfl

/-- The steps of `inc_count`. -/
inductive IncStep (n limit : ℕ) (s : State) (k : Fin 2) : State → Prop
  | lock {i : ℕ} (hpc : s.incs k = .lock i) (free : s.owner = none) :
      IncStep n limit s k { s.setInc k (.load i) with owner := some (.inc k) }
  | load {i : ℕ} (hpc : s.incs k = .load i) : IncStep n limit s k (s.setInc k (.store i s.count))
  | store {i v : ℕ} (hpc : s.incs k = .store i v) :
      IncStep n limit s k { s.setInc k (.test i) with count := v + 1 }
  | reached {i : ℕ} (hpc : s.incs k = .test i) (heq : s.count = limit) :
      IncStep n limit s k
        ((s.setInc k (.signal i)).print [.thresholdReached (Thread.inc k).id s.count])
  | skip {i : ℕ} (hpc : s.incs k = .test i) (hne : s.count ≠ limit) :
      IncStep n limit s k (s.setInc k (.unlock i))
  | signal {i : ℕ} (hpc : s.incs k = .signal i) :
      IncStep n limit s k
        { (s.setInc k (.unlock i)).print [.sentSignal] with watch := condSignal s.watch }
  | unlock {i : ℕ} (hpc : s.incs k = .unlock i) :
      IncStep n limit s k
        { (s.setInc k (loopHead n (i + 1))).print [.unlocking (Thread.inc k).id s.count] with
          owner := none }

/-- What a step of `inc_count` can do. -/
theorem incStep_of_stepInc (h : s.stepInc n limit k = some s') : IncStep n limit s k s' := by
  rw [State.stepInc] at h
  split at h
  · cases h
  · split_ifs at h with hfree
    rw [← Option.some.inj h]
    exact .lock ‹_› hfree
  · rw [← Option.some.inj h]
    exact .load ‹_›
  · rw [← Option.some.inj h]
    exact .store ‹_›
  · split_ifs at h with heq
    · rw [← Option.some.inj h]
      exact .reached ‹_› heq
    · rw [← Option.some.inj h]
      exact .skip ‹_› heq
  · rw [← Option.some.inj h]
    exact .signal ‹_›
  · rw [← Option.some.inj h]
    exact .unlock ‹_›
  · cases h

/-- The steps of `watch_count`. -/
inductive WatchStep (limit : ℕ) (s : State) : State → Prop
  | start (hpc : s.watch = .start) :
      WatchStep limit s { s.print [.starting Thread.watch.id] with watch := .lock }
  | lock (hpc : s.watch = .lock) (free : s.owner = none) :
      WatchStep limit s { s with watch := .test, owner := some .watch }
  | goWait (hpc : s.watch = .test) (hlt : s.count < limit) :
      WatchStep limit s
        { s.print [.goingIntoWait Thread.watch.id s.count] with watch := .wait }
  | pass (hpc : s.watch = .test) (hle : limit ≤ s.count) :
      WatchStep limit s { s.print [.updating Thread.watch.id] with watch := .load }
  | wait (hpc : s.watch = .wait) : WatchStep limit s { s with watch := .waiting, owner := none }
  | woken (hpc : s.watch = .woken) (free : s.owner = none) :
      WatchStep limit s
        { s.print [.signalReceived Thread.watch.id s.count] with
          watch := .test, owner := some .watch }
  | load (hpc : s.watch = .load) : WatchStep limit s { s with watch := .store s.count }
  | store {v : ℕ} (hpc : s.watch = .store v) :
      WatchStep limit s { s with watch := .unlock, count := v + 125 }
  | unlock (hpc : s.watch = .unlock) :
      WatchStep limit s
        { s.print [.countNow Thread.watch.id s.count] with watch := .exited, owner := none }

/-- What a step of `watch_count` can do. -/
theorem watchStep_of_stepWatch (h : s.stepWatch limit = some s') : WatchStep limit s s' := by
  rw [State.stepWatch] at h
  split at h
  · cases h
  · rw [← Option.some.inj h]
    exact .start ‹_›
  · split_ifs at h with hfree
    rw [← Option.some.inj h]
    exact .lock ‹_› hfree
  · split_ifs at h with hlt
    · rw [← Option.some.inj h]
      exact .goWait ‹_› hlt
    · rw [← Option.some.inj h]
      exact .pass ‹_› (Nat.le_of_not_lt hlt)
  · rw [← Option.some.inj h]
    exact .wait ‹_›
  · cases h
  · split_ifs at h with hfree
    rw [← Option.some.inj h]
    exact .woken ‹_› hfree
  · rw [← Option.some.inj h]
    exact .load ‹_›
  · rw [← Option.some.inj h]
    exact .store ‹_›
  · rw [← Option.some.inj h]
    exact .unlock ‹_›
  · cases h

/-! ### The mutex -/

/-- Between locking and unlocking the mutex. -/
def IncAt.inside : IncAt → Bool
  | load _ | store _ _ | test _ | signal _ | unlock _ => true
  | _ => false

def WatchAt.inside : WatchAt → Bool
  | test | wait | load | store _ | unlock => true
  | _ => false

def State.inside (s : State) : Thread → Bool
  | .watch => s.watch.inside
  | .inc k => (s.incs k).inside

theorem loopHead_inside (n i : ℕ) : (loopHead n i).inside = false := by
  rw [loopHead]
  split_ifs <;> rfl

theorem condSignal_inside (w : WatchAt) : (condSignal w).inside = w.inside := by
  cases w <;> rfl

/-- A step of one thread leaves the others inside or outside. -/
theorem IncStep.inside_of_ne (hs : IncStep n limit s k s') {u : Thread} (hu : u ≠ .inc k) :
    s'.inside u = s.inside u := by
  cases u with
  | watch =>
    cases hs with
    | signal => exact condSignal_inside s.watch
    | _ => rfl
  | inc j =>
    have hj : j ≠ k := fun h => hu (congrArg Thread.inc h)
    cases hs <;> simp [State.inside, hj]

/-- An `inc_count` gets inside only with the mutex, and gives it back on its way out. -/
theorem guards_incStep (h : Guards s.owner s.inside) (hs : IncStep n limit s k s') :
    Guards s'.owner s'.inside := by
  refine h.move (t := .inc k) (fun u hu => hs.inside_of_ne hu) ?_
  cases hs with
  | lock hpc free => exact .lock free rfl (by simp [State.inside, IncAt.inside])
  | load hpc => exact .keep rfl (by simp [State.inside, IncAt.inside, hpc])
  | store hpc => exact .keep rfl (by simp [State.inside, IncAt.inside, hpc])
  | reached hpc => exact .keep rfl (by simp [State.inside, IncAt.inside, hpc])
  | skip hpc => exact .keep rfl (by simp [State.inside, IncAt.inside, hpc])
  | signal hpc => exact .keep rfl (by simp [State.inside, IncAt.inside, hpc])
  | unlock hpc =>
    exact .unlock (by simp [State.inside, IncAt.inside, hpc]) rfl
      (by simp [State.inside, loopHead_inside])

/-- `watch_count` gets inside only with the mutex, and gives it back on its way out and when it
waits. -/
theorem guards_watchStep (h : Guards s.owner s.inside) (hs : WatchStep limit s s') :
    Guards s'.owner s'.inside := by
  refine h.move (t := .watch) (fun u hu => ?_) ?_
  · cases u with
    | watch => exact absurd rfl hu
    | inc j => cases hs <;> rfl
  · cases hs with
    | start hpc => exact .keep rfl (by simp [State.inside, WatchAt.inside, hpc])
    | lock hpc free => exact .lock free rfl rfl
    | goWait hpc => exact .keep rfl (by simp [State.inside, WatchAt.inside, hpc])
    | pass hpc => exact .keep rfl (by simp [State.inside, WatchAt.inside, hpc])
    | wait hpc => exact .unlock (by simp [State.inside, WatchAt.inside, hpc]) rfl rfl
    | woken hpc free => exact .lock free rfl rfl
    | load hpc => exact .keep rfl (by simp [State.inside, WatchAt.inside, hpc])
    | store hpc => exact .keep rfl (by simp [State.inside, WatchAt.inside, hpc])
    | unlock hpc => exact .unlock (by simp [State.inside, WatchAt.inside, hpc]) rfl rfl

end Camkes.RumprunPthreads
