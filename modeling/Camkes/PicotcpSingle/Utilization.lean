import Camkes.Data.ReadBuffer
import Camkes.PicotcpSingle.Basic
import Camkes.PicotcpTcpEcho.Handlers

/-!
# The two utilisation servers

`utilization_socket.c` of the picotcp single component is the same server as the one of
`picotcp_tcp_echo`, on the stack itself instead of PicoServer; the macros of the two files are the
same.  Each server is also a `Reader` here: what a client sends comes in reads, and what counts is
the replies and the calls of `idle_start` and `idle_stop`.
-/

namespace Camkes.PicotcpSingle.Utilization

open PicotcpTcpEcho (msgMatch response)

/-! ### The server on the stack -/

/-- The calls that the handler makes; a pointer to a `struct pico_socket` that may be `NULL`. -/
inductive Call
  | picoSocketAccept (s : ℕ)
  | picoSocketRecv (s : ℕ)
  | picoSocketSend (s : Option ℕ) (msg : String)
  | picoSocketShutdown (s : ℕ)
  | idleStart
  | idleStop
  deriving DecidableEq

/-- What the calls of the handler return. -/
structure Replies where
  accept : Option ℕ
  -- `pico_socket_recv`: the bytes put into `utilz_mesg`; none when it returns -1 or 0
  recv : List UInt8
  -- `idle_stop`
  total : UInt64
  idle : UInt64

/-- What is done about the contents of `utilz_mesg`. -/
def utilizCommand (buf : List UInt8) (s : ℕ) (r : Replies) : List Call :=
  if msgMatch buf "HELLO\n" then [.picoSocketSend s "200 OK (Ready to go)\n"]
  else if msgMatch buf "LOAD cpu_target_lukem\n" then [.picoSocketSend s "200 OK\n"]
  else if msgMatch buf "SETUP args::\"\"\n" then [.picoSocketSend s "200 OK\n"]
  else if msgMatch buf "START\n" then [.idleStart]
  else if msgMatch buf "STOP\n" then
    [.idleStop, .picoSocketSend s (response r.idle r.total), .picoSocketShutdown s]
  -- `QUIT` and what is no command
  else []

/-- Bytes are received on `s`; what was in `utilz_mesg` before stays after them. -/
def utilizRead (utilzMesg : List UInt8) (s : ℕ) (r : Replies) : List UInt8 × List Call :=
  let bytes := r.recv.take 0x1000
  let utilzMesg := bytes ++ utilzMesg.drop bytes.length
  (utilzMesg, .picoSocketRecv s :: utilizCommand utilzMesg s r)

/-- `handle_tcp_utiliz_notification`. -/
def handleTcpUtilizNotification (utilzMesg : List UInt8) (events : SockEvents) (s : ℕ)
    (r : Replies) : List UInt8 × List Call :=
  let conn :=
    if events.conn then
      [Call.picoSocketAccept s, Call.picoSocketSend r.accept "100 IPBENCH V1.0\n"]
    else []
  let (utilzMesg, read) := if events.rd then utilizRead utilzMesg s r else (utilzMesg, [])
  let close := if events.close then [Call.picoSocketShutdown s] else []
  (utilzMesg, conn ++ read ++ close)

/-! ### What a client gets -/

/-- A reply, or a call of `idle_start` or `idle_stop`. -/
def Call.isOutcome : Call → Bool
  | .picoSocketSend _ _ | .idleStart | .idleStop => true
  | _ => false

/-- A server with the number of times that `idle_stop` has been called, and what a read makes it do;
`measured` is what the calls of `idle_stop` return, one after the other. -/
def readStream (socket : ℕ) (measured : ℕ → UInt64 × UInt64) (p : List UInt8 × ℕ)
    (bytes : List UInt8) : (List UInt8 × ℕ) × List Call :=
  let r := handleTcpUtilizNotification p.1 { SockEvents.none with rd := true } socket
    { accept := none, recv := bytes, total := (measured p.2).1, idle := (measured p.2).2 }
  ((r.1, p.2 + r.2.count .idleStop), r.2.filter Call.isOutcome)

/-- `utilz_mesg` at the start, before any call of `idle_stop`. -/
def init : List UInt8 × ℕ := (List.replicate 0x1000 0, 0)

end Camkes.PicotcpSingle.Utilization

namespace Camkes.PicotcpTcpEcho

/-! ### The server on PicoServer -/

/-- A reply, or a call of `idle_start` or `idle_stop`. -/
def Call.isUtilizOutcome : Call → Bool
  | .echoSendSend _ _ | .idleStart | .idleStop => true
  | _ => false

theorem read_ne_none : { Events.none with read := true } ≠ Events.none := by decide

/-- The event of a read that gets these bytes. -/
def readEvent (socket : ℤ) (bytes : List UInt8) (measured : UInt64 × UInt64) : PicoserverEvent where
  socketFd := socket
  events := { Events.none with read := true }
  events_ne := read_ne_none
  replies := { accept := -1, recv := bytes, total := measured.1, idle := measured.2 }

/-- The same for the server of `picotcp_tcp_echo`. -/
def readUtilizStream (socket : ℤ) (measured : ℕ → UInt64 × UInt64) (p : State × ℕ)
    (bytes : List UInt8) : (State × ℕ) × List Call :=
  let r := handleTcpUtilizNotification p.1 (readEvent socket bytes (measured p.2))
  ((r.1, p.2 + r.2.count .idleStop), r.2.filter Call.isUtilizOutcome)

/-- The receive dataport is empty at the start. -/
def utilizInit (s : State) : State × ℕ := ({ s with echoRecvBuf := List.replicate 0x1000 0 }, 0)

end Camkes.PicotcpTcpEcho
