import Mathlib.Data.Int.Notation
import Mathlib.Data.Nat.Notation

/-!
# The Echo component of `picotcp_tcp_echo`: data

The component runs two servers, the TCP echo server of `tcp_echo_socket.c` and the utilisation
server of `utilization_socket.c`, as a client of the PicoServer component.  PicoServer keeps a queue
of events, which the component polls; the answers of PicoServer to the calls of a handler come with
the event that is handled.
-/

namespace Camkes.PicotcpTcpEcho

/-! ### Events -/

/-- The bits `PICOSERVER_…` of `uint16_t events`. -/
structure Events where
  read : Bool
  write : Bool
  close : Bool
  conn : Bool
  fin : Bool
  err : Bool
  deriving DecidableEq

/-- `events = 0`. -/
def Events.none : Events where
  read := false
  write := false
  close := false
  conn := false
  fin := false
  err := false

theorem conn_ne_none : { Events.none with conn := true } ≠ Events.none := by decide

/-- What PicoServer answers to the calls a handler makes. -/
structure Replies where
  -- `echo_control_accept`: `peer.socket`
  accept : ℤ
  -- `echo_recv_recv`: the bytes put into the receive buffer; none when it returns -1 or 0
  recv : List UInt8
  -- `idle_stop`
  total : UInt64
  idle : UInt64
  deriving DecidableEq

/-- An event in PicoServer's queue. -/
structure PicoserverEvent where
  socketFd : ℤ
  events : Events
  -- a pending event says that something has happened
  events_ne : events ≠ .none
  replies : Replies
  deriving DecidableEq

/-! ### State -/

/-- `tx_msg_t`, as far as the handlers use it. -/
structure TxMsg where
  -- which buffer it is
  id : ℕ
  totalLen : ℤ
  doneLen : ℤ
  socketFd : ℤ
  deriving DecidableEq

/-- The variables of the component. -/
structure State where
  utilizSocket : ℤ
  peerSocket : ℤ
  socketIn : ℤ
  tcpEchoClient : ℤ
  -- `rx_buf_pool[0..num_rx_bufs)`, the last entry first
  rxBufPool : List TxMsg
  -- the dataport that received bytes are put into
  echoRecvBuf : List UInt8
  deriving DecidableEq

/-- The calls that the handlers make. -/
inductive Call
  | echoControlAccept (socket : ℤ)
  | echoControlSetAsync (socket : ℤ)
  | echoControlShutdown (socket : ℤ)
  | echoControlClose (socket : ℤ)
  | echoRecvRecv (socket : ℤ)
  | echoSendSend (socket : ℤ) (msg : String)
  -- `virtqueue_add_available_buf` on the receive queue
  | addAvailableBuf (msg : TxMsg)
  | idleStart
  | idleStop
  deriving DecidableEq

end Camkes.PicotcpTcpEcho
