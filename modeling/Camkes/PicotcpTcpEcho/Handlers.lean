import Camkes.PicotcpTcpEcho.Basic

/-!
# The Echo component of `picotcp_tcp_echo`: socket handlers

`handle_tcp_echo_notification` and `handle_tcp_utiliz_notification` as functions of the state and an
event.  They return the new state and the calls they make, in order.
-/

namespace Camkes.PicotcpTcpEcho

/-! ### The TCP echo server -/

/-- `TCP_READ_SIZE`. -/
def tcpReadSize : ℤ := 1400

/-- The loop that hands the pooled buffers to PicoServer for a new client. -/
def refill (client : ℤ) : List TxMsg → List Call
  | [] => []
  | buf :: pool =>
    .addAvailableBuf { buf with totalLen := tcpReadSize, doneLen := 0, socketFd := client } ::
      refill client pool

/-- A connection on `socket` is accepted. -/
def echoConn (s : State) (socket : ℤ) (r : Replies) : State × List Call :=
  ({ s with tcpEchoClient := r.accept, rxBufPool := [] },
    .echoControlAccept socket :: .echoControlSetAsync r.accept :: refill r.accept s.rxBufPool)

/-- `handle_tcp_echo_notification`. -/
def handleTcpEchoNotification (s : State) (e : PicoserverEvent) : State × List Call :=
  let (s, conn) := if e.events.conn then echoConn s e.socketFd e.replies else (s, [])
  let close := if e.events.close then [Call.echoControlShutdown e.socketFd] else []
  let (s, fin) :=
    if e.events.fin then
      ({ s with tcpEchoClient := -1 }, [Call.echoControlClose s.tcpEchoClient])
    else (s, [])
  (s, conn ++ close ++ fin)

/-! ### The utilisation server -/

/-- The bytes of a message, without the terminating zero. -/
def bytesOf (msg : String) : List UInt8 := msg.toList.map fun c => UInt8.ofNat c.toNat

/-- `msg_match`: the buffer begins with the message. -/
def msgMatch (buf : List UInt8) (msg : String) : Bool := (bytesOf msg).isPrefixOf buf

/-- `%ld` of a `uint64_t`. -/
def formatLd (x : UInt64) : String := toString x.toInt64.toInt

/-- The answer to `STOP`: the formats `IDLE_FORMAT` and `RESPONSE`. -/
def response (idle total : UInt64) : String :=
  let utilMsg := "," ++ formatLd idle ++ "," ++ formatLd total
  "220 VALID DATA (Data to follow)\n" ++ "Content-length: " ++ toString (utilMsg.length + 1) ++
    "\n" ++ utilMsg ++ "\n"

/-- What is done about the contents of the receive buffer. -/
def utilizCommand (buf : List UInt8) (socket : ℤ) (r : Replies) : List Call :=
  if msgMatch buf "HELLO\n" then [.echoSendSend socket "200 OK (Ready to go)\n"]
  else if msgMatch buf "LOAD cpu_target_lukem\n" then [.echoSendSend socket "200 OK\n"]
  else if msgMatch buf "SETUP args::\"\"\n" then [.echoSendSend socket "200 OK\n"]
  else if msgMatch buf "START\n" then [.idleStart]
  else if msgMatch buf "STOP\n" then
    [.idleStop, .echoSendSend socket (response r.idle r.total), .echoControlShutdown socket]
  -- `QUIT` and what is no command
  else []

/-- Bytes are received on `socket`; what was in the buffer before stays after them. -/
def utilizRead (s : State) (socket : ℤ) (r : Replies) : State × List Call :=
  let bytes := r.recv.take 0x1000
  let buf := bytes ++ s.echoRecvBuf.drop bytes.length
  ({ s with echoRecvBuf := buf }, .echoRecvRecv socket :: utilizCommand buf socket r)

/-- `handle_tcp_utiliz_notification`. -/
def handleTcpUtilizNotification (s : State) (e : PicoserverEvent) : State × List Call :=
  let (s, conn) :=
    if e.events.conn then
      ({ s with peerSocket := e.replies.accept },
        [Call.echoControlAccept e.socketFd,
          Call.echoSendSend e.replies.accept "100 IPBENCH V1.0\n"])
    else (s, [])
  let (s, read) := if e.events.read then utilizRead s e.socketFd e.replies else (s, [])
  let close := if e.events.close then [Call.echoControlShutdown e.socketFd] else []
  let s := if e.events.fin then { s with peerSocket := -1 } else s
  (s, conn ++ read ++ close)

end Camkes.PicotcpTcpEcho
