import Camkes.Machine.Basic
import Mathlib.Logic.Function.Basic

/-!
# Components that take turns

Each component of `testdataportmux` (and of `testdataportmuxflat`) waits until the value on the
shared dataport is its own modulo the number of components, and then increments it with a
compare-and-swap, which is asserted to succeed.

The components run in any order.  Every access to the value is a step of its own; the loop that
waits for the turn is one step, which is possible once the value it reads is the component's own.
The number `n` of components (5) and the value `limit` (20) at which they stop are parameters.
-/

namespace Camkes.DataportMux

/-- Where a component is in `run`. -/
inductive At
  -- `while (*value < 20)`
  | outer
  -- `while ((*value) % 5 != ID)`
  | wait
  | read
  | print (oldval : ℕ)
  | swap (oldval : ℕ)
  -- after the loop
  | finish
  | done
  deriving DecidableEq

inductive Line
  -- "My turn to increment"
  | myTurn (id oldval : ℕ)
  -- "We're done, people"
  | weAreDone (id : ℕ)
  deriving DecidableEq

structure State (n : ℕ) where
  value : ℕ
  pc : Fin n → At
  log : List Line

variable {n : ℕ}

def State.init (n : ℕ) : State n where
  value := 0
  pc _ := .outer
  log := []

def State.goto (s : State n) (c : Fin n) (p : At) : State n :=
  { s with pc := Function.update s.pc c p }

def State.ok (s : State n) (c : Fin n) : Prop :=
  match s.pc c with
  | .wait => s.value % n = c
  | .done => False
  | _ => True

/-- A step of the component `c`; it fails if the assertion does. -/
def State.step (limit : ℕ) (s : State n) (c : Fin n) : Option (State n) :=
  match s.pc c with
  | .outer => some (s.goto c (if s.value < limit then .wait else .finish))
  | .wait => some (s.goto c .read)
  | .read => some (s.goto c (.print s.value))
  | .print v => some { s.goto c (.swap v) with log := s.log ++ [.myTurn c v] }
  | .swap v => if s.value = v then some { s.goto c .outer with value := v + 1 } else none
  -- only the last component says so
  | .finish =>
    if (c : ℕ) + 1 = n then some { s.goto c .done with log := s.log ++ [.weAreDone c] }
    else some (s.goto c .done)
  | .done => some s

def machine (n limit : ℕ) : Machine (State n) (Fin n) where
  ok := State.ok
  step := State.step limit

instance decidable_machine_ok (limit : ℕ) (s : State n) (c : Fin n) :
    Decidable ((machine n limit).ok s c) := by
  show Decidable (State.ok s c)
  unfold State.ok
  split <;> infer_instance

end Camkes.DataportMux
