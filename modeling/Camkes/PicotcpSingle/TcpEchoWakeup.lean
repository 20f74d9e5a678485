import Camkes.Data.History
import Camkes.PicotcpSingle.TcpEcho
import Mathlib.Logic.Function.Basic

/-!
# The TCP echo server behind edge-triggered sockets

The stack keeps the bytes that arrive on a socket until they are received, and raises a read event
when they arrive, but not again for what stays unread.  The server ignores a read event while a send
is pending, so it has to read on its own when that send is done.
-/

namespace Camkes.PicotcpSingle.TcpEcho

/-- The server, and what the stack keeps for it. -/
structure Wakeup where
  server : State
  trace : List Action
  -- the bytes that have arrived on a socket and have not been received
  unread : Sock → List UInt8
  -- whether a read event has been raised since the last one was delivered
  rdDue : Sock → Bool

inductive WakeupEvent
  | arrive (s : Sock) (bytes : List UInt8)
  | call (c : Call)

def Wakeup.init (socketIn : Sock) : Wakeup where
  server := .init socketIn
  trace := []
  unread _ := []
  rdDue _ := false

/-- The bytes that pass a socket. -/
def ioOf (s : Sock) (acts : List Action) : List Io :=
  acts.filterMap fun
    | .io s' x => if s' = s then some x else none
    | _ => none

def receivedIn (s : Sock) (acts : List Action) : List UInt8 := receivedBytes (ioOf s acts)

def sentIn (s : Sock) (acts : List Action) : List UInt8 := sentBytes (ioOf s acts)

/-- `pico_socket_recv` never fails, and it returns 0 exactly when no byte is unread. -/
def receivesUnread (unread : List UInt8) : List Round → Bool
  | [] => unread = []
  | round :: rounds =>
    match round.recv with
    | .error => false
    | .data bytes =>
      bytes ≠ [] && bytes.length ≤ tcpReadSize && bytes.isPrefixOf unread &&
        receivesUnread (unread.drop bytes.length) rounds

/-- A closed connection is gone, with what was unread on it. -/
def Wakeup.step (w : Wakeup) : WakeupEvent → Option Wakeup
  | .arrive s bytes =>
    some { w with
      unread := Function.update w.unread s (w.unread s ++ bytes)
      rdDue := Function.update w.rdDue s true }
  | .call c => do
    let (server, acts) ← handleTcpPicoserverNotification w.server c
    let left := (w.unread c.socket).drop (receivedIn c.socket acts).length
    some {
      server
      trace := w.trace ++ acts
      unread := Function.update w.unread c.socket (if c.events.fin then [] else left)
      rdDue := Function.update w.rdDue c.socket
        (w.rdDue c.socket && !c.events.rd && !c.events.fin) }

/-- Bytes arrive, and expected events are delivered, in any order.  A read event may also come when
none is due. -/
def wakeupMachine : Machine Wakeup WakeupEvent where
  ok w
    | .arrive _ bytes => bytes ≠ []
    | .call c => expected w.server c ∧ receivesUnread (w.unread c.socket) c.rounds
  step := Wakeup.step

instance decidable_wakeupMachine_ok (w : Wakeup) (e : WakeupEvent) :
    Decidable (wakeupMachine.ok w e) :=
  match e with
  | .arrive _ bytes => inferInstanceAs (Decidable (bytes ≠ []))
  | .call _ => inferInstanceAs (Decidable (_ ∧ _))

/-- Nothing is received on a connection before `rest` has been sent on it. -/
def Held (s : Sock) (rest : List UInt8) (acts : List Action) : Prop :=
  Along (fun before a => ∀ bytes, a = .io s (.received bytes) →
    -- a new connection may be given the same socket
    .accepted s ∈ before ∨ rest <+: sentIn s before) acts

end Camkes.PicotcpSingle.TcpEcho
