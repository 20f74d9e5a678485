import Camkes.PicotcpTcpEcho.Async
import Mathlib.Logic.Function.Basic

/-!
# The Echo component of `picotcp_tcp_echo`: what the buffers carry

`Transfer` adds the bytes of the buffers and the other side of the receive queue to the component.
PicoServer completes a buffer that it has been lent with bytes received on the socket named in its
`socket_fd`, which it leaves alone, or with a `done_len` of -1.  The completed buffer stays on the
used ring of the queue until `async_event` takes it, from the head; until then other buffers may be
completed and notifications handled.

PicoServer does not give out the descriptor of a closed socket again, so a descriptor names one
connection.  `received` and `queued` record what happened to the bytes.
-/

namespace Camkes.PicotcpTcpEcho

/-- A message on the transmit queue and the bytes it carries. -/
structure Queued where
  msg : AsyncMsg
  payload : List UInt8
  deriving DecidableEq

/-- The component, the bytes of the buffers and PicoServer's side of the receive queue. -/
structure Transfer where
  async : Async
  -- the bytes of each buffer, after the fields of `tx_msg_t`
  buf : ℕ × ℕ → List UInt8
  -- the buffers of the receive queue that PicoServer has completed, in order
  rxUsed : List AsyncMsg
  -- which bytes were received on which socket
  received : List (ℤ × List UInt8)
  -- what was put on the transmit queue
  queued : List Queued

/-- The first `len` bytes of the buffer. -/
def payload (buf : ℕ × ℕ → List UInt8) (m : AsyncMsg) (len : ℤ) : List UInt8 :=
  (buf m.key).take len.toNat

/-! ### PicoServer -/

/-- A completed buffer. -/
def AsyncMsg.complete (m : AsyncMsg) (doneLen : ℤ) : AsyncMsg :=
  { m with msg := { m.msg with doneLen } }

/-- PicoServer completes a receive buffer: without bytes, or with bytes that it puts at the start of
the buffer. -/
def Transfer.complete (t : Transfer) (m : AsyncMsg) : Option (List UInt8) → Transfer
  | none => { t with rxUsed := t.rxUsed ++ [m.complete (-1)] }
  | some bytes =>
    { t with
      buf := Function.update t.buf m.key (bytes ++ (t.buf m.key).drop bytes.length)
      rxUsed := t.rxUsed ++ [m.complete bytes.length]
      received := t.received ++ [(m.msg.socketFd, bytes)] }

/-! ### The component -/

/-- The transmit queue before the handler puts anything on it. -/
def Async.txBefore (a : Async) : AsyncEvent → List AsyncMsg
  | .sent k _ _ => a.txVirtqueue.eraseIdx k
  | _ => a.txVirtqueue

/-- A step of the component; what it puts on the transmit queue is recorded. -/
def Transfer.run (t : Transfer) (e : AsyncEvent) : Option Transfer := do
  let async ← t.async.step e
  let new := async.txVirtqueue.drop (t.async.txBefore e).length
  some { t with
    async
    queued := t.queued ++ new.map fun m => ⟨m, payload t.buf m m.msg.totalLen⟩ }

inductive TransferEvent
  -- `handle_tcp_echo_notification`
  | notification (e : PicoserverEvent)
  -- PicoServer completes the `k`-th buffer of the receive queue
  | complete (k : ℕ) (result : Option (List UInt8))
  -- `async_event` takes the next completed buffer from the receive queue
  | received
  -- `async_event` takes the `k`-th buffer from the transmit queue
  | sent (k : ℕ) (doneLen : ℤ)
  deriving DecidableEq

def Transfer.step (t : Transfer) : TransferEvent → Option Transfer
  | .notification e => t.run (.notification e)
  | .complete k result => do
    let m ← t.async.rxVirtqueue[k]?
    some (t.complete m result)
  | .received =>
    match t.rxUsed with
    | [] => some t
    | m :: rxUsed =>
      let k := t.async.rxVirtqueue.findIdx (·.key = m.key)
      { t with rxUsed }.run (.received k m.msg.doneLen m.msg.socketFd)
  | .sent k doneLen => do
    let m ← t.async.txVirtqueue[k]?
    t.run (.sent k doneLen m.msg.socketFd)

/-- PicoServer completes a buffer once, and returns only buffers that it has. -/
def transferMachine : Machine Transfer TransferEvent where
  ok t
    | .notification _ => True
    | .complete k _ => ∃ m ∈ t.async.rxVirtqueue[k]?, m.key ∉ t.rxUsed.map AsyncMsg.key
    | .received => True
    | .sent k _ => k < t.async.txVirtqueue.length
  step := Transfer.step

instance decidable_transferMachine_ok (t : Transfer) (e : TransferEvent) :
    Decidable (transferMachine.ok t e) :=
  match e with
  | .notification _ => inferInstanceAs (Decidable True)
  | .complete k _ =>
    inferInstanceAs (Decidable (∃ m ∈ t.async.rxVirtqueue[k]?, m.key ∉ t.rxUsed.map AsyncMsg.key))
  | .received => inferInstanceAs (Decidable True)
  | .sent _ _ => inferInstanceAs (Decidable (_ < _))

/-- The component after its setup; nothing has been received. -/
def Transfer.start (async : Async) (buf : ℕ × ℕ → List UInt8) : Transfer where
  async
  buf
  rxUsed := []
  received := []
  queued := []

/-! ### Sockets -/

/-- The payloads received on a socket. -/
def receivedOn (received : List (ℤ × List UInt8)) (socket : ℤ) : List (List UInt8) :=
  (received.filter (·.1 = socket)).map Prod.snd

/-- The payloads queued for a socket. -/
def queuedOn (queued : List Queued) (socket : ℤ) : List (List UInt8) :=
  (queued.filter (·.msg.msg.socketFd = socket)).map Queued.payload

/-- The payloads of a socket that wait on the used ring. -/
def pendingOn (buf : ℕ × ℕ → List UInt8) (used : List AsyncMsg) (socket : ℤ) :
    List (List UInt8) :=
  (used.filter fun m => m.msg.socketFd = socket ∧ m.msg.doneLen ≠ -1).map fun m =>
    payload buf m m.msg.doneLen

end Camkes.PicotcpTcpEcho
