import Camkes.Machine.Basic
import Camkes.PicotcpTcpEcho.Basic

/-!
# The connections of the Transmitter

`handle_picoserver_notification` accepts connections on the listening socket and remembers one of
them in `eth_socket`, the one that is transmitted to.  Any number of connections may be open at the
same time; the machine records which were accepted and which have ended.
-/

namespace Camkes.SecurityDemo

open PicotcpTcpEcho (Events)

/-! ### The handler -/

/-- An event of PicoServer, with what `eth_control_accept` returns if it is called. -/
structure PicoserverEvent where
  socketFd : ℤ
  events : Events
  -- `peer.socket`, or none when `peer.result` is -1
  peer : Option ℤ
  deriving DecidableEq

/-- The calls that the handler makes. -/
inductive ControlCall
  | ethControlAccept (socket : ℤ)
  | ethControlShutdown (socket : ℤ)
  deriving DecidableEq

/-- `PICOSERVER_CONN`. -/
def handleConn (ethSocket : ℤ) (e : PicoserverEvent) : Option (ℤ × List ControlCall) :=
  if e.events.conn ∧ e.socketFd ≠ 0 then
    match e.peer with
    -- the assertion fails
    | none => none
    | some socket => some (socket, [.ethControlAccept e.socketFd])
  else some (ethSocket, [])

/-- The loop body of `handle_picoserver_notification`: the new value of `eth_socket`. -/
def handleEvent (ethSocket : ℤ) (e : PicoserverEvent) : Option (ℤ × List ControlCall) := do
  let (ethSocket, conn) ← handleConn ethSocket e
  let (ethSocket, close) :=
    if e.events.close then (-1, [ControlCall.ethControlShutdown e.socketFd]) else (ethSocket, [])
  let ethSocket := if e.events.fin then -1 else ethSocket
  -- the assertion fails
  if e.events.err then none else some (ethSocket, conn ++ close)

/-- `handle_picoserver_notification`, where these events are pending. -/
def handlePicoserverNotification (ethSocket : ℤ) :
    List PicoserverEvent → Option (ℤ × List ControlCall)
  | [] => some (ethSocket, [])
  | e :: queue => do
    let (ethSocket, calls) ← handleEvent ethSocket e
    let (ethSocket, more) ← handlePicoserverNotification ethSocket queue
    some (ethSocket, calls ++ more)

/-! ### The machine -/

structure ConnSystem where
  ethSocket : ℤ
  -- the accepted connections, the newest first
  accepted : List ℤ
  -- those that have had a `PICOSERVER_CLOSE`, and a `PICOSERVER_FIN`
  closed : List ℤ
  finished : List ℤ

def ConnSystem.init : ConnSystem where
  ethSocket := -1
  accepted := []
  closed := []
  finished := []

def ConnSystem.step (s : ConnSystem) (e : PicoserverEvent) : Option ConnSystem := do
  let (ethSocket, _) ← handleEvent s.ethSocket e
  some {
    ethSocket
    accepted := (if e.events.conn then e.peer.toList else []) ++ s.accepted
    closed := if e.events.close then e.socketFd :: s.closed else s.closed
    finished := if e.events.fin then e.socketFd :: s.finished else s.finished }

/-- The socket that is accepted is a new one. -/
def ConnSystem.Fresh (s : ConnSystem) (socketIn socket : ℤ) : Prop :=
  0 ≤ socket ∧ socket ≠ socketIn ∧ socket ∉ s.accepted

/-- A connection is accepted on the listening socket. -/
def ConnSystem.Connects (s : ConnSystem) (socketIn : ℤ) (e : PicoserverEvent) : Prop :=
  e.socketFd = socketIn ∧ (e.events.conn = true ∧ e.events.close = false ∧ e.events.fin = false) ∧
    e.peer.isSome ∧ ∀ socket ∈ e.peer, s.Fresh socketIn socket

/-- Something happens on an accepted connection, which is closed once and finishes once. -/
def ConnSystem.Happens (s : ConnSystem) (e : PicoserverEvent) : Prop :=
  e.socketFd ∈ s.accepted ∧ e.events.conn = false ∧
    (e.events.close = true → e.socketFd ∉ s.closed) ∧
    (e.events.fin = true → e.socketFd ∉ s.finished)

instance (s : ConnSystem) (socketIn socket : ℤ) : Decidable (s.Fresh socketIn socket) :=
  inferInstanceAs (Decidable (_ ∧ _ ∧ _))

instance (s : ConnSystem) (socketIn : ℤ) (e : PicoserverEvent) :
    Decidable (s.Connects socketIn e) :=
  inferInstanceAs (Decidable (_ ∧ _ ∧ _ ∧ _))

instance (s : ConnSystem) (e : PicoserverEvent) : Decidable (s.Happens e) :=
  inferInstanceAs (Decidable (_ ∧ _ ∧ _ ∧ _))

/-- Connections come on the listening socket and end in any order. -/
def connMachine (socketIn : ℤ) : Machine ConnSystem PicoserverEvent where
  ok s e := e.events.err = false ∧ (s.Connects socketIn e ∨ s.Happens e)
  step := ConnSystem.step

instance decidable_connMachine_ok (socketIn : ℤ) (s : ConnSystem) (e : PicoserverEvent) :
    Decidable ((connMachine socketIn).ok s e) :=
  inferInstanceAs (Decidable (_ ∧ (_ ∨ _)))

/-! ### What `eth_socket` should be -/

/-- The connections that have had neither event, the newest first. -/
def ConnSystem.opened (s : ConnSystem) : List ℤ :=
  s.accepted.filter fun socket => socket ∉ s.closed ∧ socket ∉ s.finished

/-- `eth_socket` is the newest open connection, or -1. -/
def ConnSystem.Tracked (s : ConnSystem) : Prop := s.ethSocket = s.opened.head?.getD (-1)

/-- No other connection is open when one ends. -/
def ConnSystem.EndsLast (s : ConnSystem) (e : PicoserverEvent) : Prop :=
  e.events.close = true ∨ e.events.fin = true → ∀ socket ∈ s.opened, socket = e.socketFd

instance (s : ConnSystem) : Decidable s.Tracked := inferInstanceAs (Decidable (_ = _))

instance (s : ConnSystem) (e : PicoserverEvent) : Decidable (s.EndsLast e) :=
  inferInstanceAs (Decidable (_ → _))

end Camkes.SecurityDemo
