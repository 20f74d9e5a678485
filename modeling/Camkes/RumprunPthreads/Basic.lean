import Camkes.Machine.Basic
import Mathlib.Algebra.Ring.Nat
import Mathlib.Logic.Function.Basic

/-!
# The condition variable of `rumprun_pthreads`

Two threads run `inc_count` and one runs `watch_count`, which waits on a condition variable until
the counter has reached `COUNT_LIMIT`; `main` creates the threads, joins them and prints the
counter.

The threads run in any order.  `pthread_cond_wait` gives up the mutex and starts to wait in one
step, a waiting thread is woken by `pthread_cond_signal` or for no reason, and then has to lock the
mutex again.  `count++` is a read and a write.  The model has the number of rounds (`n` for
`TCOUNT`) and the limit as parameters.
-/

namespace Camkes.RumprunPthreads

/-- `TCOUNT` -/
def tcount : ℕ := 10

/-- `COUNT_LIMIT` -/
def countLimit : ℕ := 12

-- there are two incrementing threads
scoped instance neZero_two : NeZero 2 := ⟨Nat.succ_ne_zero 1⟩

/-- The threads, in the order of their creation. -/
inductive Thread
  | watch
  | inc (k : Fin 2)
  deriving DecidableEq

/-- `my_id` -/
def Thread.id : Thread → ℕ
  | watch => 1
  | inc k => k + 2

/-- The index in `threads`. -/
def Thread.index : Thread → ℕ
  | watch => 0
  | inc k => k + 1

/-- Where a thread is in `inc_count`, with `i`. -/
inductive IncAt
  | unborn
  | lock (i : ℕ)
  -- `count++` reads and writes
  | load (i : ℕ)
  | store (i v : ℕ)
  -- `if (count == COUNT_LIMIT)`
  | test (i : ℕ)
  | signal (i : ℕ)
  | unlock (i : ℕ)
  | exited
  deriving DecidableEq

/-- Where a thread is in `watch_count`. -/
inductive WatchAt
  | unborn
  | start
  | lock
  -- `while (count < COUNT_LIMIT)`
  | test
  | wait
  -- in `pthread_cond_wait`, before and after it has been woken
  | waiting
  | woken
  -- `count += 125` reads and writes
  | load
  | store (v : ℕ)
  | unlock
  | exited
  deriving DecidableEq

/-- Where `main` is. -/
inductive MainAt
  | create (t : Thread)
  | join (t : Thread)
  | print
  | done
  deriving DecidableEq

/-- A line that is printed, with its values. -/
inductive Line
  -- "Threshold reached."
  | thresholdReached (id count : ℕ)
  -- "Just sent signal."
  | sentSignal
  -- "unlocking mutex"
  | unlocking (id count : ℕ)
  -- "Starting watch_count()"
  | starting (id : ℕ)
  -- "Going into wait..."
  | goingIntoWait (id count : ℕ)
  -- "Condition signal received."
  | signalReceived (id count : ℕ)
  -- "Updating the value of count..."
  | updating (id : ℕ)
  -- "count now = ", "Unlocking mutex."
  | countNow (id count : ℕ)
  -- "Final value of count = "
  | final (count : ℕ)
  deriving DecidableEq

structure State where
  count : ℕ
  -- who holds `count_mutex`
  owner : Option Thread
  main : MainAt
  watch : WatchAt
  incs : Fin 2 → IncAt
  log : List Line

def State.init : State where
  count := 0
  owner := none
  main := .create .watch
  watch := .unborn
  incs _ := .unborn
  log := []

/-- What happens next: a step of `main` or of a thread, or a waiting thread is woken for no
reason. -/
inductive Event
  | main
  | thread (t : Thread)
  | spurious
  deriving DecidableEq

/-! ### `inc_count` -/

def State.setInc (s : State) (k : Fin 2) (p : IncAt) : State :=
  { s with incs := Function.update s.incs k p }

def State.print (s : State) (lines : List Line) : State := { s with log := s.log ++ lines }

/-- The condition of the `for` loop. -/
def loopHead (n i : ℕ) : IncAt := if i < n then .lock i else .exited

/-- `pthread_cond_signal` -/
def condSignal : WatchAt → WatchAt
  | .waiting => .woken
  | w => w

def State.stepInc (n limit : ℕ) (s : State) (k : Fin 2) : Option State :=
  let id := (Thread.inc k).id
  match s.incs k with
  | .unborn => none
  | .lock i =>
    if s.owner = none then some { s.setInc k (.load i) with owner := some (.inc k) } else none
  | .load i => some (s.setInc k (.store i s.count))
  | .store i v => some { s.setInc k (.test i) with count := v + 1 }
  | .test i =>
    if s.count = limit then some ((s.setInc k (.signal i)).print [.thresholdReached id s.count])
    else some (s.setInc k (.unlock i))
  | .signal i =>
    some { (s.setInc k (.unlock i)).print [.sentSignal] with watch := condSignal s.watch }
  | .unlock i =>
    some { (s.setInc k (loopHead n (i + 1))).print [.unlocking id s.count] with owner := none }
  | .exited => none

/-! ### `watch_count` -/

def State.stepWatch (limit : ℕ) (s : State) : Option State :=
  let id := Thread.watch.id
  match s.watch with
  | .unborn => none
  | .start => some { s.print [.starting id] with watch := .lock }
  | .lock => if s.owner = none then some { s with watch := .test, owner := some .watch } else none
  | .test =>
    if s.count < limit then some { s.print [.goingIntoWait id s.count] with watch := .wait }
    else some { s.print [.updating id] with watch := .load }
  | .wait => some { s with watch := .waiting, owner := none }
  | .waiting => none
  | .woken =>
    if s.owner = none then
      some { s.print [.signalReceived id s.count] with watch := .test, owner := some .watch }
    else none
  | .load => some { s with watch := .store s.count }
  | .store v => some { s with watch := .unlock, count := v + 125 }
  | .unlock => some { s.print [.countNow id s.count] with watch := .exited, owner := none }
  | .exited => none

/-! ### `main` -/

/-- The thread that is created or joined next. -/
def Thread.next : Thread → Option Thread
  | watch => some (.inc 0)
  | inc k => if k = 0 then some (.inc 1) else none

/-- `pthread_create` -/
def State.create (n : ℕ) (s : State) : Thread → State
  | .watch => { s with watch := .start }
  | .inc k => s.setInc k (loopHead n 0)

def State.exited (s : State) : Thread → Bool
  | .watch => s.watch = .exited
  | .inc k => s.incs k = .exited

def State.stepMain (n : ℕ) (s : State) : Option State :=
  match s.main with
  | .create t =>
    let next := match t.next with
      | some u => .create u
      | none => .join .watch
    some { s.create n t with main := next }
  | .join t =>
    let next := match t.next with
      | some u => .join u
      | none => .print
    if s.exited t then some { s with main := next } else none
  | .print => some { s.print [.final s.count] with main := .done }
  | .done => none

/-! ### The machine -/

/-- The next state, or `none` if the event cannot happen. -/
def State.step (n limit : ℕ) (s : State) : Event → Option State
  | .main => s.stepMain n
  | .thread (.inc k) => s.stepInc n limit k
  | .thread .watch => s.stepWatch limit
  | .spurious => if s.watch = .waiting then some { s with watch := .woken } else none

def machine (n limit : ℕ) : Machine State Event where
  ok s e := (s.step n limit e).isSome
  step := State.step n limit

instance decidable_machine_ok (n limit : ℕ) (s : State) (e : Event) :
    Decidable ((machine n limit).ok s e) :=
  inferInstanceAs (Decidable ((s.step n limit e).isSome = true))

end Camkes.RumprunPthreads
