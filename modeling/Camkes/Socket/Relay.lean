import Camkes.Data.CArray
import Camkes.Data.CString
import Camkes.Machine.Basic

/-!
# The socket application

`Sender` writes a string to a shared `socket_t`, `Transport` copies it to another one, and
`Receiver` reads it there.  Each component is a thread whose program counter names its next
statement; the threads interleave in any way, also within the sections that a spinlock protects.

A step fails when a spinlock is locked before it has been initialised, when it is initialised after
it has been locked, and when `strcpy` or `printf` runs out of its array.
-/

namespace Camkes.Socket

open CArray

/-! ### Shared data -/

/-- `sync_spinlock_t`, with what has been done to it. -/
structure Spinlock where
  locked : Bool
  initialised : Bool
  -- it has been locked since it was initialised
  used : Bool

/-- `socket_t`. -/
structure SocketT where
  lock : Spinlock
  full : Bool
  data : Vector UInt8 100

/-- A shared area at the start. -/
def SocketT.zero : SocketT where
  lock := { locked := false, initialised := false, used := false }
  full := false
  data := Vector.replicate 100 0

/-- `sync_spinlock_init`. -/
def syncSpinlockInit (sock : SocketT) : Option SocketT :=
  if sock.lock.used then none
  else some { sock with lock := { locked := false, initialised := true, used := false } }

/-- `sync_spinlock_lock`, when it does not spin. -/
def syncSpinlockLock (sock : SocketT) : Option SocketT :=
  if sock.lock.initialised then
    some { sock with lock := { sock.lock with locked := true, used := true } }
  else none

/-- `sync_spinlock_unlock`. -/
def syncSpinlockUnlock (sock : SocketT) : SocketT :=
  { sock with lock := { sock.lock with locked := false } }

/-- `sync_spinlock_lock` spins. -/
def SocketT.spins (sock : SocketT) : Bool := sock.lock.initialised && sock.lock.locked

/-- `strcpy` from the bytes `src`. -/
def strcpy (dst : Vector UInt8 100) (src : List UInt8) : Option (Vector UInt8 100) := do
  let s ← CString.read src
  memcpy dst (s ++ [0])

/-! ### Threads -/

inductive SenderPc
  | initLock
  | emit
  | lock
  | strcpy
  | setFull
  | unlock
  | done
  deriving DecidableEq

inductive TransportPc
  | wait
  | initLock
  | emit
  -- the loop: `incoming` is locked and tested
  | lock
  | test
  -- `incoming` is full
  | lockOutgoing
  | strcpy
  | setFull
  | unlockOutgoing
  | unlock (received : Bool)
  | done
  deriving DecidableEq

inductive ReceiverPc
  | wait
  | lock
  | test
  | print
  | unlock (received : Bool)
  | done
  deriving DecidableEq

structure System where
  sender : SenderPc
  transport : TransportPc
  receiver : ReceiverPc
  -- the socket between Sender and Transport
  incoming : SocketT
  -- the socket between Transport and Receiver
  outgoing : SocketT
  -- the events `c` and `d`
  setup : Bool
  setupReceiver : Bool
  -- what Receiver has printed
  printed : Option (List UInt8)

def System.init : System where
  sender := .initLock
  transport := .wait
  receiver := .wait
  incoming := .zero
  outgoing := .zero
  setup := false
  setupReceiver := false
  printed := none

/-! ### Steps -/

inductive Event
  | sender
  | transport
  | receiver
  deriving DecidableEq

/-- The thread has a next statement and does not wait in it. -/
def System.enabled (s : System) : Event → Bool
  | .sender =>
    match s.sender with
    | .lock => !s.incoming.spins
    | .done => false
    | _ => true
  | .transport =>
    match s.transport with
    | .wait => s.setup
    | .lock => !s.incoming.spins
    | .lockOutgoing => !s.outgoing.spins
    | .done => false
    | _ => true
  | .receiver =>
    match s.receiver with
    | .wait => s.setupReceiver
    | .lock => !s.outgoing.spins
    | .done => false
    | _ => true

/-- `run` of Sender, which writes the string `str`. -/
def stepSender (str : List UInt8) (s : System) : Option System :=
  match s.sender with
  | .initLock => do
    let incoming ← syncSpinlockInit s.incoming
    some { s with incoming, sender := .emit }
  | .emit => some { s with setup := true, sender := .lock }
  | .lock => do
    let incoming ← syncSpinlockLock s.incoming
    some { s with incoming, sender := .strcpy }
  | .strcpy => do
    let data ← strcpy s.incoming.data (str ++ [0])
    some { s with incoming := { s.incoming with data }, sender := .setFull }
  | .setFull => some { s with incoming := { s.incoming with full := true }, sender := .unlock }
  | .unlock => some { s with incoming := syncSpinlockUnlock s.incoming, sender := .done }
  | .done => none

/-- `run` of Transport. -/
def stepTransport (s : System) : Option System :=
  match s.transport with
  | .wait => some { s with setup := false, transport := .initLock }
  | .initLock => do
    let outgoing ← syncSpinlockInit s.outgoing
    some { s with outgoing, transport := .emit }
  | .emit => some { s with setupReceiver := true, transport := .lock }
  | .lock => do
    let incoming ← syncSpinlockLock s.incoming
    some { s with incoming, transport := .test }
  | .test =>
    some { s with transport := if s.incoming.full then .lockOutgoing else .unlock false }
  | .lockOutgoing => do
    let outgoing ← syncSpinlockLock s.outgoing
    some { s with outgoing, transport := .strcpy }
  | .strcpy => do
    let data ← strcpy s.outgoing.data s.incoming.data.toList
    some { s with outgoing := { s.outgoing with data }, transport := .setFull }
  | .setFull =>
    some { s with outgoing := { s.outgoing with full := true }, transport := .unlockOutgoing }
  | .unlockOutgoing =>
    some { s with outgoing := syncSpinlockUnlock s.outgoing, transport := .unlock true }
  | .unlock received =>
    some { s with
      incoming := syncSpinlockUnlock s.incoming
      transport := if received then .done else .lock }
  | .done => none

/-- `run` of Receiver. -/
def stepReceiver (s : System) : Option System :=
  match s.receiver with
  | .wait => some { s with setupReceiver := false, receiver := .lock }
  | .lock => do
    let outgoing ← syncSpinlockLock s.outgoing
    some { s with outgoing, receiver := .test }
  | .test => some { s with receiver := if s.outgoing.full then .print else .unlock false }
  | .print => do
    let str ← CString.read s.outgoing.data.toList
    some { s with printed := str, receiver := .unlock true }
  | .unlock received =>
    some { s with
      outgoing := syncSpinlockUnlock s.outgoing
      receiver := if received then .done else .lock }
  | .done => none

/-- The three threads, for the string that Sender writes. -/
def machine (str : List UInt8) : Machine System Event where
  ok s e := s.enabled e
  step s
    | .sender => stepSender str s
    | .transport => stepTransport s
    | .receiver => stepReceiver s

instance decidable_machine_ok (str : List UInt8) (s : System) (e : Event) :
    Decidable ((machine str).ok s e) :=
  inferInstanceAs (Decidable (s.enabled e = true))

end Camkes.Socket
