import Camkes.Data.CArray
import Camkes.Data.History
import Camkes.Machine.Basic
import Camkes.PicotcpSingle.Basic
import Mathlib.Data.Int.Notation

/-!
# The UDP echo server of the picotcp single component

`udp_echo_socket.c` receives a datagram into its one packet buffer and sends it back.  When the send
fails the datagram stays in the buffer, and a later write event tries again.

The outcomes of `pico_socket_recvfrom` and `pico_socket_sendto` come with the call of the handler.
The functions return `none` when an access to the buffer is out of bounds.
-/

namespace Camkes.PicotcpSingle.UdpEcho

open CArray

/-! ### The server and the stack -/

/-- A datagram, with the address and port of the other side. -/
structure Datagram where
  payload : List UInt8
  addr : UInt32
  port : UInt16
  deriving DecidableEq

/-- What a call of `pico_socket_recvfrom` does. -/
inductive RecvFrom
  -- it returns -1
  | error
  -- it returns 0, as nothing has been received
  | nothing
  -- it stores a datagram and its origin, and returns the number of bytes stored
  | datagram (d : Datagram)
  deriving DecidableEq

/-- What a call of `pico_socket_sendto` does. -/
inductive SendTo
  -- it returns -1
  | error
  -- it returns 0, as the socket is full
  | full
  -- it sends the datagram
  | sent
  deriving DecidableEq

/-- The static variables of `udp_echo_socket.c`. -/
structure State where
  udpDataPacket : Vector UInt8 packetSize
  -- the length of the datagram that waits to be sent, or -1
  pendingLen : ℤ
  udpOrig : UInt32
  udpRemotePort : UInt16
  rxQueued : UInt64

/-- The static variables before the first event. -/
def State.init : State where
  udpDataPacket := Vector.replicate packetSize 0
  pendingLen := -1
  udpOrig := 0
  udpRemotePort := 0
  rxQueued := 0

/-- What the server does to the network. -/
inductive Action
  -- a datagram has been received while `pending_len` had this value
  | received (pendingLen : ℤ) (d : Datagram)
  | sent (d : Datagram)
  deriving DecidableEq

/-- `pico_socket_recvfrom` with the static variables as its arguments. -/
def recvfrom (s : State) : RecvFrom → Option (State × ℤ × List Action)
  | .error => some (s, -1, [])
  | .nothing => some (s, 0, [])
  | .datagram d => do
    let payload := d.payload.take udpReadSize
    let udpDataPacket ← memcpy s.udpDataPacket payload
    some ({ s with udpDataPacket, udpOrig := d.addr, udpRemotePort := d.port }, payload.length,
      [.received s.pendingLen { d with payload }])

/-- The datagram that `pico_socket_sendto` is asked to send. -/
def outgoing (s : State) (len : ℤ) : Option Datagram := do
  let payload ← slice s.udpDataPacket 0 len.toNat
  some { payload, addr := s.udpOrig, port := s.udpRemotePort }

/-! ### The handler -/

/-- The receive loop, with the outcomes of its calls in each round; no more is received after the
last of them. -/
def receiveLoop (s : State) : List (RecvFrom × SendTo) → Option (State × List Action)
  | [] => if s.rxQueued = 0 then some (s, []) else some ({ s with rxQueued := s.rxQueued - 1 }, [])
  | (recv, send) :: rounds =>
    if s.rxQueued = 0 then some (s, [])
    else do
      let (s, ret, acts) ← recvfrom s recv
      let s := { s with rxQueued := s.rxQueued - 1 }
      -- an error or an empty message ends the loop
      if ret = -1 ∨ ret = 0 then some (s, acts)
      else
        let d ← outgoing s ret
        match send with
        | .error | .full => some ({ s with pendingLen := ret }, acts)
        | .sent => do
          let (s, more) ← receiveLoop s rounds
          some (s, acts ++ .sent d :: more)

/-- A call of the handler, with the outcomes of its calls to the stack. -/
structure Call where
  events : SockEvents
  -- `pico_socket_sendto` for the datagram that waits
  resend : SendTo
  -- the rounds of the receive loop
  rounds : List (RecvFrom × SendTo)
  deriving DecidableEq

/-- The static variables once a read event has been counted. -/
def countRead (s : State) (events : SockEvents) : State :=
  if events.rd then { s with rxQueued := s.rxQueued + 1 } else s

/-- `handle_udp_picoserver_notification`. -/
def handleUdpPicoserverNotification (s : State) (c : Call) : Option (State × List Action) :=
  let s := countRead s c.events
  if c.events.wr ∧ s.pendingLen ≠ -1 then do
    let d ← outgoing s s.pendingLen
    match c.resend with
    | .error | .full => some (s, [])
    | .sent => do
      let (s, acts) ← receiveLoop { s with pendingLen := -1 } c.rounds
      some (s, .sent d :: acts)
  else receiveLoop s c.rounds

/-! ### The machine -/

structure System where
  server : State
  trace : List Action

def System.init : System where
  server := .init
  trace := []

def System.step (s : System) (c : Call) : Option System := do
  let (server, acts) ← handleUdpPicoserverNotification s.server c
  some { server, trace := s.trace ++ acts }

/-- Events come in any order, and the stack answers in any way. -/
def machine : Machine System Call where
  ok _ _ := True
  step := System.step

instance (s : System) (c : Call) : Decidable (machine.ok s c) :=
  inferInstanceAs (Decidable True)

/-! ### What an echo server should do -/

/-- The datagrams that have been received and not been answered, oldest first. -/
def unanswered (trace : List Action) : List Datagram :=
  trace.foldl (fun ds a => match a with
    | .received _ d => ds ++ [d]
    | .sent d => ds.erase d) []

/-- Whether an action is right after the actions before it: a datagram is received only when none
waits to be sent, and a datagram that is sent answers one that has not been answered. -/
def Right (before : List Action) : Action → Prop
  | .received pendingLen _ => pendingLen = -1
  | .sent d => d ∈ unanswered before

instance (before : List Action) (a : Action) : Decidable (Right before a) :=
  match a with
  | .received pendingLen _ => inferInstanceAs (Decidable (pendingLen = -1))
  | .sent d => inferInstanceAs (Decidable (d ∈ unanswered before))

/-- Every action of the trace is right. -/
def Echoes (trace : List Action) : Prop := Along Right trace

/-- The rounds begin with a datagram that can be received. -/
def Call.offersDatagram (c : Call) : Bool :=
  match c.rounds with
  | (.datagram _, _) :: _ => true
  | _ => false

/-- The call does not make the server receive over a datagram that waits: none waits, or the call
has a write event, or no read event is left to serve, or there is no datagram to receive. -/
def Undisturbed (s : State) (c : Call) : Prop :=
  s.pendingLen = -1 ∨ c.events.wr ∨ (countRead s c.events).rxQueued = 0 ∨ !c.offersDatagram

instance (s : State) (c : Call) : Decidable (Undisturbed s c) :=
  inferInstanceAs (Decidable (_ ∨ _))

end Camkes.PicotcpSingle.UdpEcho
