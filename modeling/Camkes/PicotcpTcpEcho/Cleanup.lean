import Camkes.Machine.Basic
import Camkes.PicotcpTcpEcho.Dispatch

/-!
# The Echo component of `picotcp_tcp_echo`: connections that finish

Clients connect to `socket_in`, close and finish in any order, and several may be connected at the
same time.  Each of their events is dispatched once, by the socket test of
`handle_picoserver_notification`; the machine records the accepted sockets, those that have
finished, and all calls that the handlers make.
-/

namespace Camkes.PicotcpTcpEcho

/-- The calls that a handler has made about an event. -/
def Dispatch.calls : Dispatch → List Call
  | .utiliz _ calls => calls
  | .echo _ calls => calls
  | .unregistered _ => []

structure CleanupSystem where
  state : State
  accepted : List ℤ
  -- the sockets that have had a `PICOSERVER_FIN`
  finished : List ℤ
  calls : List Call

def CleanupSystem.start (state : State) : CleanupSystem where
  state
  accepted := []
  finished := []
  calls := []

def CleanupSystem.step (s : CleanupSystem) (e : PicoserverEvent) : Option CleanupSystem :=
  let (state, d) := dispatch s.state e
  some {
    state
    accepted := if e.events.conn then e.replies.accept :: s.accepted else s.accepted
    finished := if e.events.fin then e.socketFd :: s.finished else s.finished
    calls := s.calls ++ d.calls }

/-- A descriptor that is none of the sockets that are listened on, nor the other server's client. -/
def State.Foreign (s : State) (socket : ℤ) : Prop :=
  socket ≠ s.utilizSocket ∧ socket ≠ s.peerSocket ∧ socket ≠ s.socketIn

/-- A client connects to `socket_in`, and gets a new descriptor. -/
def CleanupSystem.Connects (s : CleanupSystem) (e : PicoserverEvent) : Prop :=
  e.socketFd = s.state.socketIn ∧
    (e.events.conn = true ∧ e.events.close = false ∧ e.events.fin = false) ∧
    0 ≤ e.replies.accept ∧ e.replies.accept ∉ s.accepted ∧ s.state.Foreign e.replies.accept

/-- Something happens on an accepted socket. -/
def CleanupSystem.Happens (s : CleanupSystem) (e : PicoserverEvent) : Prop :=
  e.socketFd ∈ s.accepted ∧ e.events.conn = false

def cleanupMachine : Machine CleanupSystem PicoserverEvent where
  ok s e := s.Connects e ∨ s.Happens e
  step := CleanupSystem.step

instance (s : State) (socket : ℤ) : Decidable (s.Foreign socket) :=
  inferInstanceAs (Decidable (_ ∧ _ ∧ _))

instance (s : CleanupSystem) (e : PicoserverEvent) : Decidable (s.Connects e) :=
  inferInstanceAs (Decidable (_ ∧ _ ∧ _ ∧ _ ∧ _))

instance (s : CleanupSystem) (e : PicoserverEvent) : Decidable (s.Happens e) :=
  inferInstanceAs (Decidable (_ ∧ _))

instance decidable_cleanupMachine_ok (s : CleanupSystem) (e : PicoserverEvent) :
    Decidable (cleanupMachine.ok s e) :=
  inferInstanceAs (Decidable (_ ∨ _))

/-! ### What should be closed -/

/-- Every socket that has finished has been closed. -/
def CleanupSystem.AllClosed (s : CleanupSystem) : Prop :=
  ∀ socket ∈ s.finished, .echoControlClose socket ∈ s.calls

/-- `tcp_echo_client` becomes -1 only when the current client finishes. -/
def ClearsOwn (t : Transition CleanupSystem PicoserverEvent) : Prop :=
  t.before.state.tcpEchoClient ≠ -1 → t.after.state.tcpEchoClient = -1 →
    t.event.events.fin = true ∧ t.event.socketFd = t.before.state.tcpEchoClient

/-- A socket that finishes for the first time is the one of the current client. -/
def CleanupSystem.FinishesCurrent (s : CleanupSystem) (e : PicoserverEvent) : Prop :=
  e.events.fin = true → e.socketFd ∉ s.finished → e.socketFd = s.state.tcpEchoClient

instance (s : CleanupSystem) : Decidable s.AllClosed := inferInstanceAs (Decidable (∀ _ ∈ _, _))

instance (s : CleanupSystem) (e : PicoserverEvent) : Decidable (s.FinishesCurrent e) :=
  inferInstanceAs (Decidable (_ → _ → _))

end Camkes.PicotcpTcpEcho
