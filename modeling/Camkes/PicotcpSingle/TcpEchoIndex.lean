import Camkes.PicotcpSingle.TcpEcho
import Mathlib.Data.Int.Notation

/-!
# The client ids of the TCP echo server

The handler of `tcp_echo_socket.c` keeps the id of the client in an `int`, which is -1 for a socket
without a slot, and indexes the per-client arrays with it.  `handleChecked` is the handler with this
id and with a check of every index; it also says which fault ends a call, where
`handleTcpPicoserverNotification` only fails.
-/

namespace Camkes.PicotcpSingle.TcpEcho

open CArray

/-- What can go wrong in a call of the handler. -/
inductive Fault
  | assertion
  -- an access to a per-client array with this index
  | index (clientId : ℤ)
  -- an access outside of a packet buffer
  | packet
  deriving DecidableEq

/-- `client_id`. -/
def clientIdOf (st : State) (s : Sock) : ℤ :=
  match findClient st s with
  | some i => i
  | none => -1

/-- The index that an access to a per-client array uses. -/
def checkIndex (clientId : ℤ) : Except Fault ClientId :=
  if h : 0 ≤ clientId ∧ clientId < maxTcpClients then .ok ⟨clientId.toNat, by omega⟩
  else .error (.index clientId)

/-- The result of an operation that can fail for one reason only. -/
def orFault {α : Type*} (f : Fault) : Option α → Except Fault α
  | some x => .ok x
  | none => .error f

/-- `handle_tcp_picoserver_notification`, with the fault that ends it. -/
def handleChecked (st : State) (c : Call) : Except Fault (State × List Action) := do
  let clientId := clientIdOf st c.socket
  let (st, conn) ← (
    if c.events.conn then
      if clientId = -1 then orFault .assertion (handleConn st none c.accept)
      else .error .assertion
    else .ok (st, []))
  let (st, rd, flushed) ← (
    if c.events.wr then do
      let i ← checkIndex clientId
      orFault .packet (handleWrite st (some i) c.socket c.events.rd c.flush)
    else .ok (st, c.events.rd, []))
  let (st, read) ← (
    if rd then do
      let i ← checkIndex clientId
      orFault .packet (handleRead st (some i) c.socket c.rounds)
    else .ok (st, []))
  let close := if c.events.close then [Action.shutdown c.socket] else []
  let st ← (
    if c.events.fin then
      if clientId = -1 then .error .assertion
      else do
        let i ← checkIndex clientId
        orFault .assertion (handleFin st (some i))
    else .ok st)
  -- the last branch asserts 0
  (if c.events.err then .error .assertion else .ok (st, conn ++ flushed ++ read ++ close))

/-! ### The machine -/

/-- The server, and the fault that has stopped it. -/
structure Checked where
  server : State
  fault : Option Fault

def Checked.init (socketIn : Sock) : Checked where
  server := .init socketIn
  fault := none

def Checked.step (s : Checked) (c : Call) : Checked :=
  match handleChecked s.server c with
  | .ok r => { server := r.1, fault := none }
  | .error f => { s with fault := some f }

/-- Any events but `PICO_SOCK_EV_ERR`, of any socket. -/
def checkedMachine : Machine Checked Call where
  ok s c := s.fault = none ∧ c.events.err = false
  step s c := some (s.step c)

instance decidable_checkedMachine_ok (s : Checked) (c : Call) : Decidable (checkedMachine.ok s c) :=
  inferInstanceAs (Decidable (_ ∧ _))

/-- Every access to a per-client array has used an index in range. -/
def Checked.indicesValid (s : Checked) : Prop := ∀ i, s.fault ≠ some (.index i)

/-- A read or write event is for a socket that has a slot. -/
def dataEventHasSlot (st : State) (c : Call) : Bool :=
  !(c.events.rd || c.events.wr) || isOpen st c.socket

end Camkes.PicotcpSingle.TcpEcho
