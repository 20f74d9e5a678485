import Camkes.Picoserver.Echo

/-!
# The components of picoserver that print

The Listener of picoserver and the Echo of picoserver_uboot print what they receive.  Their
`handle_picoserver_notification` is the same but for the sockets whose connections are accepted and
for what is printed for a message (`Printer`).

The receive buffer is shared with the server, and the message in it is printed as a string of C.
-/

namespace Camkes.Picoserver

open CArray

/-- An event of the server, with what the calls made for it return. -/
structure PrinterEvent where
  socket : ℤ
  -- the bits `PICOSERVER_…` of `events`
  conn : Bool
  read : Bool
  close : Bool
  fin : Bool
  err : Bool
  -- `peer.result` and `peer.peer_addr` of `…_control_accept`
  peerResult : ℤ
  peerAddr : UInt32
  received : Received

/-- What is printed. -/
inductive Line
  -- "Connection established with"
  | established (peerAddr : UInt32) (socket : ℤ)
  -- "Received a message on socket", and the message as it is
  | message (socket : ℤ) (text : List UInt8)
  -- "Received message of length"
  | lengthMessage (length : ℕ) (text : List UInt8)
  -- "Connection closing on socket"
  | closing (socket : ℤ)
  -- "Connection closed on socket"
  | closed (socket : ℤ)
  deriving DecidableEq

structure Printer where
  accepts : ℤ → Bool
  message : ℤ → List UInt8 → Line

/-- The Listener of picoserver. -/
def listener : Printer where
  accepts _ := true
  message := .message

/-- The Echo of picoserver_uboot, whose `listener_socket` is 0. -/
def ubootEcho : Printer where
  accepts socket := socket ≠ 0
  message _ text := .lengthMessage text.length text

namespace Printer

variable (p : Printer)

/-- The READ branch. -/
def readBranch (e : PrinterEvent) (recvBuf : Buf) : Option (List Line × Buf) := do
  let recvBuf ← memcpy recvBuf e.received.data
  let text ← CString.read recvBuf.toList
  some ([p.message e.socket text], Vector.replicate shmemSize 0)

/-- The branches of the handler for one event. -/
def handleEvent (recvBuf : Buf) (e : PrinterEvent) : Except Failure (List Line × Buf) := do
  let accepts := e.conn && p.accepts e.socket
  if accepts && decide (e.peerResult = -1) then
    throw .assertion
  let (text, recvBuf) ←
    if e.read then
      match p.readBranch e recvBuf with
      | none => throw .outOfBounds
      | some r => pure r
    else pure ([], recvBuf)
  if e.err then
    throw .assertion
  pure ((if accepts then [.established e.peerAddr e.socket] else []) ++ text ++
    (if e.close then [.closing e.socket] else []) ++ (if e.fin then [.closed e.socket] else []),
    recvBuf)

/-- `handle_picoserver_notification`, for the events until a poll returns none. -/
def handlePicoserverNotification (recvBuf : Buf) :
    List PrinterEvent → Except Failure (List Line × Buf)
  | [] => pure ([], recvBuf)
  | e :: es => do
    let (lines, recvBuf) ← p.handleEvent recvBuf e
    let (rest, recvBuf) ← handlePicoserverNotification recvBuf es
    pure (lines ++ rest, recvBuf)

end Printer

end Camkes.Picoserver
