import Camkes.Data.CArray
import Camkes.Data.CString
import Mathlib.Algebra.Ring.Int.Defs
import Mathlib.Algebra.Ring.Nat

/-!
# The Echo component of picoserver

Echo forwards what its clients send to the Listener.  `handle_picoserver_notification` takes the
events of the server one by one; on a READ event it receives into `echo_recv_buf`, copies to
`echo_send_buf`, and sends from there.  The two buffers are shared with the server.
-/

namespace Camkes.Picoserver

open CArray

/-- The size of the shared buffers. -/
def shmemSize : ℕ := 0x1000

abbrev Buf := Vector UInt8 shmemSize

/-- The shared buffers. -/
structure Bufs where
  echoSendBuf : Buf
  echoRecvBuf : Buf

/-- Both buffers after `memset(…, 0, 4096)`. -/
def Bufs.zero : Bufs where
  echoSendBuf := Vector.replicate shmemSize 0
  echoRecvBuf := Vector.replicate shmemSize 0

/-- The outcome of `echo_recv_recv(socket, 4096, 0)`. -/
inductive Received
  | error
  | bytes (bs : List UInt8) (length_le : bs.length ≤ shmemSize)

namespace Received

/-- The bytes placed in `echo_recv_buf`. -/
def data : Received → List UInt8
  | error => []
  | bytes bs _ => bs

/-- `ret`. -/
def ret : Received → ℤ
  | error => -1
  | bytes bs _ => bs.length

end Received

/-- The conversion of an `int` to `size_t`. -/
def sizeT (x : ℤ) : ℕ := (x % 2 ^ 64).toNat

/-- `strncpy(dest, src, n)`.  For an `n` above the size of the buffers it writes out of bounds. -/
def strncpy (dest src : Buf) (n : ℕ) : Option Buf := do
  let bytes ← slice src 0 n
  memcpy dest (CString.strncpy bytes)

/-- `strlen(buf)`, which is out of bounds if there is no NUL in the buffer. -/
def strlen (buf : Buf) : Option ℕ := (CString.read buf.toList).map List.length

/-- The READ branch: the bytes that are sent to the Listener, and the buffers after it. -/
def readBranch (received : Received) (b : Bufs) : Option (List UInt8 × Bufs) := do
  let echoRecvBuf ← memcpy b.echoRecvBuf received.data
  let echoSendBuf ← strncpy b.echoSendBuf echoRecvBuf (sizeT received.ret)
  let len ← strlen echoSendBuf
  let sent ← slice echoSendBuf 0 len
  some (sent, .zero)

/-! ### The handler -/

/-- An event of the server, with what the calls made for it return. -/
structure ServerEvent where
  socket : ℤ
  -- the bits `PICOSERVER_…` of `events`
  conn : Bool
  read : Bool
  close : Bool
  err : Bool
  -- `peer.result` of `echo_control_accept`
  peerResult : ℤ
  received : Received

/-- A call to the server. -/
inductive Call
  | accept (socket : ℤ)
  | recv (socket : ℤ)
  | send (socket : ℤ) (bytes : List UInt8)
  | shutdown (socket : ℤ)

inductive Failure
  -- an access out of bounds
  | outOfBounds
  | assertion
  deriving DecidableEq

/-- The branches of the handler for one event. -/
def handleEvent (listenerSocket : ℤ) (b : Bufs) (e : ServerEvent) :
    Except Failure (List Call × Bufs) := do
  let accepts := e.conn && decide (e.socket ≠ listenerSocket)
  if accepts && decide (e.peerResult = -1) then
    throw .assertion
  let (sends, b) ←
    if e.read then
      match readBranch e.received b with
      | none => throw .outOfBounds
      | some (sent, b) => pure ([.recv e.socket, .send listenerSocket sent], b)
    else pure ([], b)
  if e.err then
    throw .assertion
  pure ((if accepts then [.accept e.socket] else []) ++ sends ++
    (if e.close then [.shutdown e.socket] else []), b)

/-- `handle_picoserver_notification`, for the events until a poll returns none. -/
def handlePicoserverNotification (listenerSocket : ℤ) (b : Bufs) :
    List ServerEvent → Except Failure (List Call × Bufs)
  | [] => pure ([], b)
  | e :: es => do
    let (calls, b) ← handleEvent listenerSocket b e
    let (rest, b) ← handlePicoserverNotification listenerSocket b es
    pure (calls ++ rest, b)

end Camkes.Picoserver
