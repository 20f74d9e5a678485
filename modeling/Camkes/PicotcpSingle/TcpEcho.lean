import Camkes.Data.CArray
import Camkes.Machine.Basic
import Camkes.PicotcpSingle.Basic

/-!
# The TCP echo server of the picotcp single component

`tcp_echo_socket.c` accepts up to `MAX_TCP_CLIENTS` connections and sends back every byte it
receives.  One call of the handler can flush a send that was blocked (on a write event) and then
receive and send until no data is left or a send blocks again (on a read event).

The outcomes of `pico_socket_accept`, `pico_socket_recv` and `pico_socket_send` come with the call.
The functions return `none` when an assertion fails or an access is out of bounds; `client_id = -1`
is `none`, so every access to a per-client array needs a client.
-/

namespace Camkes.PicotcpSingle.TcpEcho

open CArray

/-! ### The server and the stack -/

/-- A pointer to a `struct pico_socket`, other than `NULL`. -/
abbrev Sock := ℕ

/-- An index of the per-client arrays. -/
abbrev ClientId := Fin maxTcpClients

/-- What a call of `pico_socket_send` does. -/
inductive Send
  -- it returns -1
  | error
  -- it sends and returns this many bytes, or all it is offered
  | sent (n : ℕ)
  deriving DecidableEq

/-- What a call of `pico_socket_recv` does. -/
inductive Recv
  -- it returns -1
  | error
  -- it stores and returns these bytes, or as many as it is asked for
  | data (bytes : List UInt8)
  deriving DecidableEq

/-- `data_packet`, `write_pending`, `remaining_payload` and `sent_payload` of one client. -/
structure Slot where
  dataPacket : Vector UInt8 packetSize
  writePending : Bool
  remainingPayload : ℕ
  sentPayload : ℕ

/-- The static variables of `tcp_echo_socket.c`. -/
structure State where
  socketIn : Sock
  -- `NULL` is `none`
  connected : Vector (Option Sock) maxTcpClients
  slots : Vector Slot maxTcpClients

/-- The static variables after `setup_tcp_socket`. -/
def State.init (socketIn : Sock) : State where
  socketIn
  connected := Vector.replicate maxTcpClients none
  slots := Vector.replicate maxTcpClients
    { dataPacket := Vector.replicate packetSize 0
      writePending := false
      remainingPayload := 0
      sentPayload := 0 }

/-- Bytes that pass a connection. -/
inductive Io
  | received (bytes : List UInt8)
  | sent (bytes : List UInt8)
  deriving DecidableEq

/-- What the server does to the network. -/
inductive Action
  | accepted (s : Sock)
  | io (s : Sock) (x : Io)
  | shutdown (s : Sock)
  deriving DecidableEq

/-! ### The loops -/

/-- The loop on a write event: send what is left of the payload.  The outcomes of
`pico_socket_send` are given; after the last of them it returns 0. -/
def flushLoop (slot : Slot) : List Send → Option (Slot × List Io)
  | [] => some (slot, [])
  | send :: sends =>
    if slot.remainingPayload > 0 then
      match send with
      | .error => some (slot, [])
      | .sent n => do
        let bytes ← slice slot.dataPacket slot.sentPayload slot.remainingPayload
        let bytes := bytes.take n
        if bytes.length = 0 then some ({ slot with writePending := true }, [])
        else
          let (slot, more) ← flushLoop { slot with
            remainingPayload := slot.remainingPayload - bytes.length
            sentPayload := slot.sentPayload + bytes.length } sends
          some (slot, .sent bytes :: more)
    else some (slot, [])

/-- The variables of a send that has to wait with `ret` bytes left after `done`. -/
def Slot.block (slot : Slot) (ret done : ℕ) : Slot :=
  { slot with writePending := true, remainingPayload := ret, sentPayload := done }

/-- The inner loop on a read event: send the received bytes. -/
def sendLoop (slot : Slot) (ret done : ℕ) : List Send → Option (Slot × List Io)
  | [] => if ret > 0 then some (slot.block ret done, []) else some (slot, [])
  | send :: sends =>
    if ret > 0 then
      match send with
      | .error => some (slot, [])
      | .sent n => do
        let bytes ← slice slot.dataPacket done ret
        let bytes := bytes.take n
        if bytes.length = 0 then some (slot.block ret done, [])
        else
          let (slot, more) ← sendLoop slot (ret - bytes.length) (done + bytes.length) sends
          some (slot, .sent bytes :: more)
    else some (slot, [])

/-- One round of the outer loop on a read event. -/
structure Round where
  recv : Recv
  sends : List Send
  deriving DecidableEq

/-- The outer loop on a read event.  After the last of the given rounds `pico_socket_recv`
returns 0. -/
def receiveLoop (slot : Slot) : List Round → Option (Slot × List Io)
  | [] => some (slot, [])
  | round :: rounds =>
    if slot.writePending then some (slot, [])
    else
      match round.recv with
      | .error => some (slot, [])
      | .data bytes =>
        let bytes := bytes.take tcpReadSize
        if bytes.length = 0 then some (slot, [])
        else do
          let dataPacket ← memcpy slot.dataPacket bytes
          let (slot, acts) ← sendLoop { slot with dataPacket } bytes.length 0 round.sends
          let (slot, more) ← receiveLoop slot rounds
          some (slot, .received bytes :: (acts ++ more))

/-! ### The handler -/

/-- A call of the handler, with the outcomes of its calls to the stack. -/
structure Call where
  events : SockEvents
  socket : Sock
  -- `pico_socket_accept`; `NULL` is `none`
  accept : Option Sock
  -- `pico_socket_send` on a write event
  flush : List Send
  -- `pico_socket_recv` and `pico_socket_send` on a read event
  rounds : List Round
  deriving DecidableEq

/-- The search for the client of a socket. -/
def findClient (st : State) (s : Sock) : Option ClientId :=
  if s = st.socketIn then none
  else (List.finRange maxTcpClients).find? fun i => st.connected.get i = some s

/-- The search for a free client id. -/
def findFree (st : State) : Option ClientId :=
  (List.finRange maxTcpClients).find? fun i => st.connected.get i = none

/-- A new connection. -/
def handleConn (st : State) (clientId : Option ClientId) (accept : Option Sock) :
    Option (State × List Action) :=
  if clientId.isSome then none
  else
    match findFree st with
    | none => some (st, [])
    | some i =>
      some ({ st with
        connected := put st.connected i accept
        slots := put st.slots i { st.slots.get i with writePending := false } },
        accept.toList.map .accepted)

/-- A write event.  It also returns whether the read event bit is set now. -/
def handleWrite (st : State) (clientId : Option ClientId) (s : Sock) (rd : Bool)
    (sends : List Send) : Option (State × Bool × List Action) := do
  let i ← clientId
  if (st.slots.get i).writePending then
    let (slot, acts) ← flushLoop (st.slots.get i) sends
    let acts := acts.map (.io s)
    if slot.remainingPayload = 0 then
      some ({ st with slots := put st.slots i { slot with writePending := false } }, true, acts)
    else some ({ st with slots := put st.slots i slot }, rd, acts)
  else some (st, rd, [])

/-- A read event. -/
def handleRead (st : State) (clientId : Option ClientId) (s : Sock) (rounds : List Round) :
    Option (State × List Action) := do
  let i ← clientId
  let (slot, acts) ← receiveLoop (st.slots.get i) rounds
  some ({ st with slots := put st.slots i slot }, acts.map (.io s))

/-- The connection has been closed. -/
def handleFin (st : State) (clientId : Option ClientId) : Option State := do
  let i ← clientId
  some { st with connected := put st.connected i none }

/-- `handle_tcp_picoserver_notification`. -/
def handleTcpPicoserverNotification (st : State) (c : Call) : Option (State × List Action) := do
  let clientId := findClient st c.socket
  let (st, conn) ← (if c.events.conn then handleConn st clientId c.accept else some (st, []))
  let (st, rd, flushed) ← (if c.events.wr then handleWrite st clientId c.socket c.events.rd c.flush
    else some (st, c.events.rd, []))
  let (st, read) ← (if rd then handleRead st clientId c.socket c.rounds else some (st, []))
  let close := if c.events.close then [Action.shutdown c.socket] else []
  let st ← (if c.events.fin then handleFin st clientId else some st)
  -- the last branch asserts 0
  (if c.events.err then none else some (st, conn ++ flushed ++ read ++ close))

/-! ### The machine -/

structure System where
  server : State
  trace : List Action

def System.init (socketIn : Sock) : System where
  server := .init socketIn
  trace := []

def System.step (s : System) (c : Call) : Option System := do
  let (server, acts) ← handleTcpPicoserverNotification s.server c
  some { server, trace := s.trace ++ acts }

/-- A connection is open for the socket. -/
def isOpen (st : State) (s : Sock) : Bool := (findClient st s).isSome

/-- `pico_socket_accept` fails or returns a socket that is not in use. -/
def acceptsNew (st : State) (accept : Option Sock) : Bool :=
  accept.all fun s => s ≠ st.socketIn && !isOpen st s

/-- Events of open connections other than `PICO_SOCK_EV_CONN` and `PICO_SOCK_EV_ERR`, and new
connections reported for a socket that is not open. -/
def expected (st : State) (c : Call) : Bool :=
  !c.events.err && acceptsNew st c.accept &&
    if isOpen st c.socket then !c.events.conn else !c.events.rd && !c.events.wr && !c.events.fin

/-- No call of `pico_socket_send` fails. -/
def sendsSucceed (c : Call) : Bool :=
  !c.flush.contains .error && c.rounds.all fun round => !round.sends.contains .error

/-- Expected events come in any order, and no send fails. -/
def machine : Machine System Call where
  ok s c := expected s.server c ∧ sendsSucceed c
  step := System.step

instance (s : System) (c : Call) : Decidable (machine.ok s c) :=
  inferInstanceAs (Decidable (_ ∧ _))

/-! ### What a connection has seen -/

/-- The bytes received and sent on a connection. -/
structure Conn where
  received : List UInt8
  sent : List UInt8
  deriving DecidableEq

def Conn.empty : Conn where
  received := []
  sent := []

def Conn.io (c : Conn) : Io → Conn
  | .received bytes => { c with received := c.received ++ bytes }
  | .sent bytes => { c with sent := c.sent ++ bytes }

/-- The bytes that have been received. -/
def receivedBytes (xs : List Io) : List UInt8 :=
  xs.flatMap fun
    | .received bytes => bytes
    | .sent _ => []

/-- The bytes that have been sent. -/
def sentBytes (xs : List Io) : List UInt8 :=
  xs.flatMap fun
    | .received _ => []
    | .sent bytes => bytes

/-- The bytes received and sent on the socket since it was last accepted. -/
def connOf (s : Sock) (trace : List Action) : Conn :=
  trace.foldl (fun c a => match a with
    | .accepted s' => if s' = s then .empty else c
    | .io s' x => if s' = s then c.io x else c
    | .shutdown _ => c) .empty

/-- What a slot says about its connection: everything received has been sent, except what is pending
in the packet buffer. -/
def Slot.Echoes (slot : Slot) (c : Conn) : Prop :=
  if slot.writePending then
    ∃ rest, slice slot.dataPacket slot.sentPayload slot.remainingPayload = some rest ∧
      c.received = c.sent ++ rest
  else c.sent = c.received

end Camkes.PicotcpSingle.TcpEcho
