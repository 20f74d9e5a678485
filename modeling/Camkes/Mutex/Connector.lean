import Camkes.Data.History
import Camkes.Machine.Basic
import Mathlib.Data.Int.Notation

/-!
# The connector `seL4MyConnector`

The connector gives two components one mutex.  The component on its `to` side calls the mutex
itself.  The calls of the component on its `from` side go over an endpoint to a thread of the
connector, `__run`, which calls the mutex for it and sends a reply over the same endpoint.

A message passes the endpoint when one thread is in `seL4_Send` and the other in `seL4_Recv` or
`seL4_Wait`.  The mutex is a binary mutex that has been initialised by `__init`.
-/

namespace Camkes.Mutex

/-! ### State -/

/-- A message on the endpoint. -/
structure Message where
  length : ℕ
  -- message register 0: zero for `lock`, one for `unlock`
  mr0 : ℕ
  -- the request that the message makes or answers, counted by the sender
  request : ℕ
  deriving DecidableEq

/-- Where the thread on the `from` side is. -/
inductive FromPc
  -- in its own program, with the lock or without
  | running (holds : Bool)
  -- in `seL4_Send`
  | sending (m : Message)
  -- in `seL4_Wait`, after it has sent this request
  | waiting (m : Message)

/-- Where the connector thread is. -/
inductive ConnPc
  -- in `seL4_Recv`
  | receiving
  | received (m : Message)
  -- in `sync_mutex_lock`
  | locking (m : Message)
  -- in `sync_mutex_unlock`
  | unlocking (m : Message)
  -- in `seL4_Send`
  | replying (m : Message)

/-- Where the thread on the `to` side is. -/
inductive ToPc
  | running (holds : Bool)
  | locking
  | unlocking

/-- A message that has passed the endpoint. -/
inductive Obs
  | requested (m : Message)
  | replied (m : Message)
  deriving DecidableEq

structure System where
  fromPc : FromPc
  connPc : ConnPc
  toPc : ToPc
  -- the mutex is locked
  held : Bool
  -- the number of requests so far
  requests : ℕ
  trace : List Obs

def System.init : System where
  fromPc := .running false
  connPc := .receiving
  toPc := .running false
  held := false
  requests := 0
  trace := []

/-! ### Steps -/

/-- `sync_mutex_lock`, unless it blocks, with its result. -/
def syncMutexLock (held : Bool) : Option (Bool × ℤ) := if held then none else some (true, 0)

/-- `sync_mutex_unlock`. -/
def syncMutexUnlock (_held : Bool) : Bool × ℤ := (false, 0)

inductive Event
  -- the program on the `from` side calls `lock` or `unlock`, in turn
  | fromCall
  -- its request passes the endpoint
  | request
  -- the connector thread looks at the message
  | dispatch
  -- the connector thread's call of the mutex returns
  | connMutex
  -- its reply passes the endpoint
  | reply
  -- the program on the `to` side calls `lock` or `unlock`, in turn
  | toCall
  -- its call of the mutex returns
  | toMutex
  deriving DecidableEq

/-- The thread that takes the step does not wait. -/
def System.enabled (s : System) : Event → Bool
  | .fromCall => (s.fromPc matches .running _)
  | .request => (s.fromPc matches .sending _) && (s.connPc matches .receiving)
  | .dispatch => (s.connPc matches .received _)
  | .connMutex =>
    match s.connPc with
    | .locking _ => (syncMutexLock s.held).isSome
    | .unlocking _ => true
    | _ => false
  | .reply => (s.connPc matches .replying _) && (s.fromPc matches .waiting _)
  | .toCall => (s.toPc matches .running _)
  | .toMutex =>
    match s.toPc with
    | .locking => (syncMutexLock s.held).isSome
    | .unlocking => true
    | .running _ => false

/-- `_lock` and `_unlock` on the `from` side, up to `seL4_Send`. -/
def System.fromCall (s : System) (holds : Bool) : System :=
  { s with
    fromPc := .sending { length := 1, mr0 := if holds then 1 else 0, request := s.requests }
    requests := s.requests + 1 }

/-- A step; it fails when an assertion of the connector thread does. -/
def System.step (s : System) : Event → Option System
  | .fromCall =>
    match s.fromPc with
    | .running holds => some (s.fromCall holds)
    | _ => none
  | .request =>
    match s.fromPc with
    | .sending m =>
      some { s with
        fromPc := .waiting m
        connPc := .received m
        trace := s.trace ++ [.requested m] }
    | _ => none
  | .dispatch =>
    match s.connPc with
    | .received m =>
      if m.length = 1 then
        some { s with connPc := if m.mr0 = 0 then .locking m else .unlocking m }
      else none
    | _ => none
  | .connMutex =>
    match s.connPc with
    | .locking m => do
      let (held, result) ← syncMutexLock s.held
      if result = 0 then some { s with held, connPc := .replying m } else none
    | .unlocking m =>
      let (held, result) := syncMutexUnlock s.held
      if result = 0 then some { s with held, connPc := .replying m } else none
    | _ => none
  | .reply =>
    match s.connPc, s.fromPc with
    | .replying m, .waiting sent =>
      -- `_lock` or `_unlock` returns
      some { s with
        connPc := .receiving, fromPc := .running (sent.mr0 = 0), trace := s.trace ++ [.replied m] }
    | _, _ => none
  | .toCall =>
    match s.toPc with
    | .running holds => some { s with toPc := if holds then .unlocking else .locking }
    | _ => none
  | .toMutex =>
    match s.toPc with
    | .locking => do
      let (held, _) ← syncMutexLock s.held
      some { s with held, toPc := .running true }
    | .unlocking => some { s with held := (syncMutexUnlock s.held).1, toPc := .running false }
    | .running _ => none

def machine : Machine System Event where
  ok s e := s.enabled e
  step := System.step

instance decidable_machine_ok (s : System) (e : Event) : Decidable (machine.ok s e) :=
  inferInstanceAs (Decidable (s.enabled e = true))

/-! ### What is to hold -/

/-- Both programs are between a lock that has returned and the start of its unlock. -/
def System.bothHold (s : System) : Bool :=
  (s.fromPc matches .running true) && (s.toPc matches .running true)

/-- Every reply answers the request that passed the endpoint just before it. -/
def RepliesAnswer (trace : List Obs) : Prop :=
  Along (fun before o => ∀ m, o = .replied m → before.getLast? = some (.requested m)) trace

end Camkes.Mutex
