import Camkes.Machine.Basic
import Camkes.PicotcpTcpEcho.Handlers

/-!
# The Echo component of `picotcp_tcp_echo`: asynchronous transfers

The component lends buffers to PicoServer on two virtqueues: empty ones on the receive queue, and
filled ones on the transmit queue.  PicoServer returns them in any order, with any `done_len` and
`socket_fd`, and `async_event` decides where each goes next.  Buffers of the TCP server that have no
client to receive for wait in `rx_buf_pool`.

A virtqueue is the list of the buffers that have been added to it and not yet been returned; adding
to one that is full fails, and so does storing behind the end of the pool.
-/

namespace Camkes.PicotcpTcpEcho

/-! ### Tuning parameters -/

/-- `NUM_UDP_BUFS`. -/
def numUdpBufs : ℕ := 510

/-- `NUM_TCP_BUFS`. -/
def numTcpBufs : ℕ := 510

/-- `UDP_READ_SIZE`. -/
def udpReadSize : ℤ := 1400

/-- `PICOTCP_SOCKET_ASYNC_QUEUE_LEN`. -/
def picotcpSocketAsyncQueueLen : ℕ := 1024

/-- `TCP_SOCKETS_ASYNC_ID`. -/
def tcpSocketsAsyncId : ℕ := 1

/-- `UDP_SOCKETS_ASYNC_ID`. -/
def udpSocketsAsyncId : ℕ := 2

/-! ### Virtqueues -/

/-- A buffer on a virtqueue. -/
structure AsyncMsg where
  msg : TxMsg
  clientCookie : ℕ
  deriving DecidableEq

/-- The variables of the component and its virtqueues. -/
structure Async where
  app : State
  rxVirtqueue : List AsyncMsg
  txVirtqueue : List AsyncMsg

/-- `virtqueue_add_available_buf`. -/
def virtqueueAddAvailableBuf (queue : List AsyncMsg) (m : AsyncMsg) : Option (List AsyncMsg) :=
  if queue.length < picotcpSocketAsyncQueueLen then some (queue ++ [m]) else none

def Async.addRx (a : Async) (m : AsyncMsg) : Option Async := do
  let rxVirtqueue ← virtqueueAddAvailableBuf a.rxVirtqueue m
  some { a with rxVirtqueue }

def Async.addTx (a : Async) (m : AsyncMsg) : Option Async := do
  let txVirtqueue ← virtqueueAddAvailableBuf a.txVirtqueue m
  some { a with txVirtqueue }

/-- `rx_buf_pool[num_rx_bufs] = msg` and `num_rx_bufs++`. -/
def Async.pool (a : Async) (m : AsyncMsg) : Option Async :=
  if a.app.rxBufPool.length < numTcpBufs then
    some { a with app := { a.app with rxBufPool := m.msg :: a.app.rxBufPool } }
  else none

/-- `get_msg_from_queue`, where PicoServer has returned the `k`-th buffer of the queue. -/
def getMsgFromQueue (queue : List AsyncMsg) (k : ℕ) (doneLen socketFd : ℤ) :
    Option (AsyncMsg × List AsyncMsg) := do
  let m ← queue[k]?
  some ({ m with msg := { m.msg with doneLen, socketFd } }, queue.eraseIdx k)

/-! ### Completions -/

/-- `udp_socket_handle_async_received`. -/
def udpSocketHandleAsyncReceived (a : Async) (m : AsyncMsg) : Option Async :=
  if m.msg.doneLen = -1 ∨ m.msg.doneLen = 0 then
    a.addRx { m with msg := { m.msg with totalLen := udpReadSize, doneLen := 0 } }
  else a.addTx { m with msg := { m.msg with totalLen := m.msg.doneLen, doneLen := 0 } }

/-- `udp_socket_handle_async_sent`. -/
def udpSocketHandleAsyncSent (a : Async) (m : AsyncMsg) : Option Async :=
  a.addRx { m with msg := { m.msg with totalLen := udpReadSize, doneLen := 0 } }

/-- The second part of `tcp_socket_handle_async_received`. -/
def tcpReceivedFor (a : Async) (m : AsyncMsg) : Option Async :=
  if m.msg.doneLen = -1 ∨ m.msg.doneLen = 0 then
    a.addRx { m with msg := { m.msg with totalLen := tcpReadSize, doneLen := 0 } }
  else a.addTx { m with msg := { m.msg with totalLen := m.msg.doneLen, doneLen := 0 } }

/-- `tcp_socket_handle_async_received`. -/
def tcpSocketHandleAsyncReceived (a : Async) (m : AsyncMsg) : Option Async :=
  if m.msg.socketFd ≠ a.app.tcpEchoClient then
    -- the socket has been closed
    if a.app.tcpEchoClient = -1 then a.pool m
    else tcpReceivedFor a { m with
      msg := { m.msg with socketFd := a.app.tcpEchoClient, doneLen := -1 } }
  else tcpReceivedFor a m

/-- `tcp_socket_handle_async_sent`. -/
def tcpSocketHandleAsyncSent (a : Async) (m : AsyncMsg) : Option Async :=
  let m : AsyncMsg := { m with msg := { m.msg with totalLen := tcpReadSize, doneLen := 0 } }
  if m.msg.socketFd ≠ a.app.tcpEchoClient then
    if a.app.tcpEchoClient = -1 then a.pool m
    else a.addRx { m with msg := { m.msg with socketFd := a.app.tcpEchoClient } }
  else a.addRx m

/-- The body of the first loop of `async_event`. -/
def asyncSent (a : Async) (m : AsyncMsg) : Option Async :=
  if m.clientCookie = udpSocketsAsyncId then udpSocketHandleAsyncSent a m
  else if m.clientCookie = tcpSocketsAsyncId then tcpSocketHandleAsyncSent a m
  -- it logs that the socket is bad
  else some a

/-- The body of the second loop of `async_event`. -/
def asyncReceived (a : Async) (m : AsyncMsg) : Option Async :=
  if m.clientCookie = udpSocketsAsyncId then udpSocketHandleAsyncReceived a m
  else if m.clientCookie = tcpSocketsAsyncId then tcpSocketHandleAsyncReceived a m
  -- it logs that the socket is bad
  else some a

/-! ### Notifications -/

/-- What the calls of a handler do to the virtqueues. -/
def performCalls (a : Async) : List Call → Option Async
  | [] => some a
  | .addAvailableBuf msg :: calls => do
    let a ← a.addRx { msg, clientCookie := tcpSocketsAsyncId }
    performCalls a calls
  | _ :: calls => performCalls a calls

/-! ### Setup -/

/-- The pool after `n` rounds of the loop in `setup_tcp_echo_socket`. -/
def setupTcpBufs : ℕ → List TxMsg
  | 0 => []
  | n + 1 => { id := n, totalLen := 0, doneLen := 0, socketFd := -1 } :: setupTcpBufs n

/-- The receive queue after `n` rounds of the loop in `setup_udp_echo_socket`. -/
def setupUdpBufs (udpSocket : ℤ) : ℕ → Option (List AsyncMsg)
  | 0 => some []
  | n + 1 => do
    let queue ← setupUdpBufs udpSocket n
    virtqueueAddAvailableBuf queue
      { msg :=
          { id := numTcpBufs + n, totalLen := udpReadSize, doneLen := 0, socketFd := udpSocket }
        clientCookie := udpSocketsAsyncId }

/-- The component after its setup functions, for the sockets that PicoServer has opened. -/
def setup (utilizSocket socketIn udpSocket : ℤ) : Option Async := do
  let rxVirtqueue ← setupUdpBufs udpSocket (numUdpBufs - 1)
  some {
    app := {
      utilizSocket
      peerSocket := -1
      socketIn
      tcpEchoClient := 0
      rxBufPool := setupTcpBufs numTcpBufs
      echoRecvBuf := List.replicate 0x1000 0 }
    rxVirtqueue
    txVirtqueue := [] }

/-! ### The machine -/

inductive AsyncEvent
  -- `handle_tcp_echo_notification`
  | notification (e : PicoserverEvent)
  -- `async_event` takes the `k`-th buffer from the transmit queue
  | sent (k : ℕ) (doneLen socketFd : ℤ)
  -- `async_event` takes the `k`-th buffer from the receive queue
  | received (k : ℕ) (doneLen socketFd : ℤ)
  deriving DecidableEq

def Async.step (a : Async) : AsyncEvent → Option Async
  | .notification e =>
    let (app, calls) := handleTcpEchoNotification a.app e
    performCalls { a with app } calls
  | .sent k doneLen socketFd => do
    let (m, txVirtqueue) ← getMsgFromQueue a.txVirtqueue k doneLen socketFd
    asyncSent { a with txVirtqueue } m
  | .received k doneLen socketFd => do
    let (m, rxVirtqueue) ← getMsgFromQueue a.rxVirtqueue k doneLen socketFd
    asyncReceived { a with rxVirtqueue } m

/-- PicoServer returns only buffers that it has. -/
def asyncMachine : Machine Async AsyncEvent where
  ok a
    | .notification _ => True
    | .sent k _ _ => k < a.txVirtqueue.length
    | .received k _ _ => k < a.rxVirtqueue.length
  step := Async.step

/-! ### Where the buffers are -/

/-- Which buffer it is, and whose. -/
def AsyncMsg.key (m : AsyncMsg) : ℕ × ℕ := (m.msg.id, m.clientCookie)

/-- In how many places a buffer of the TCP server is. -/
def tcpPlaces (a : Async) (id : ℕ) : ℕ :=
  (a.app.rxBufPool.map TxMsg.id).count id +
    (a.rxVirtqueue.map AsyncMsg.key).count (id, tcpSocketsAsyncId) +
    (a.txVirtqueue.map AsyncMsg.key).count (id, tcpSocketsAsyncId)

/-- On how many virtqueues a buffer of the UDP server is. -/
def udpPlaces (a : Async) (id : ℕ) : ℕ :=
  (a.rxVirtqueue.map AsyncMsg.key).count (id, udpSocketsAsyncId) +
    (a.txVirtqueue.map AsyncMsg.key).count (id, udpSocketsAsyncId)

end Camkes.PicotcpTcpEcho
