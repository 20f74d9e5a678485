import Camkes.PicotcpTcpEcho.Handlers

/-!
# The Echo component of `picotcp_tcp_echo`: dispatching events

`handle_picoserver_notification` polls PicoServer for events and hands each to the handler of its
socket.  `dispatchEach` is what such a loop is for: it looks at every event once, in order.
-/

namespace Camkes.PicotcpTcpEcho

/-- What the loop does with an event. -/
inductive Dispatch
  | utiliz (e : PicoserverEvent) (calls : List Call)
  | echo (e : PicoserverEvent) (calls : List Call)
  -- it logs that no handler is registered
  | unregistered (e : PicoserverEvent)
  deriving DecidableEq

/-- The event is for one of the sockets of the utilisation server. -/
def isUtiliz (s : State) (e : PicoserverEvent) : Bool :=
  e.socketFd = s.utilizSocket ∨ e.socketFd = s.peerSocket

/-- The event is for one of the sockets of the echo server. -/
def isEcho (s : State) (e : PicoserverEvent) : Bool :=
  e.socketFd = s.socketIn ∨ e.socketFd = s.tcpEchoClient

/-- The event is for one of the four sockets. -/
def isRegistered (s : State) (e : PicoserverEvent) : Bool := isUtiliz s e || isEcho s e

/-- One event: the branches of the loop body. -/
def dispatch (s : State) (e : PicoserverEvent) : State × Dispatch :=
  if isUtiliz s e then
    let (s', calls) := handleTcpUtilizNotification s e
    (s', .utiliz e calls)
  else if isEcho s e then
    let (s', calls) := handleTcpEchoNotification s e
    (s', .echo e calls)
  else (s, .unregistered e)

/-- What is left of the queue after `echo_control_event_poll`. -/
def poll (queue : List PicoserverEvent) : List PicoserverEvent := queue.tail

/-- The loop of `handle_picoserver_notification`, where the first event of the list has been polled.
The loop ends when a poll returns no event. -/
def handleLoop (s : State) : List PicoserverEvent → State × List Dispatch
  | [] => (s, [])
  | e :: queue =>
    let (s', d) := dispatch s e
    -- the branches with a handler poll, and the end of the loop body polls again
    let (s'', ds) := handleLoop s' (if isRegistered s e then poll queue else queue)
    (s'', d :: ds)
termination_by queue => queue.length
decreasing_by
  split
  · simp only [poll, List.length_tail, List.length_cons]
    omega
  · simp only [List.length_cons]
    omega

/-- `handle_picoserver_notification`. -/
def handlePicoserverNotification (s : State) (queue : List PicoserverEvent) :
    State × List Dispatch :=
  handleLoop s queue

/-- Every event of the queue is looked at once, in order. -/
def dispatchEach (s : State) : List PicoserverEvent → State × List Dispatch
  | [] => (s, [])
  | e :: queue =>
    let (s', d) := dispatch s e
    let (s'', ds) := dispatchEach s' queue
    (s'', d :: ds)

end Camkes.PicotcpTcpEcho
