import Camkes.Data.PrefixWords
import Camkes.Machine.Basic
import Camkes.PicotcpSingle.Utilization

/-!
# READ events of the utilisation servers

A READ event makes a server call the receive function once, which delivers some bytes, none, or
fails.  The machines here have a server and the list of what it has done about each event.
-/

namespace Camkes.PicotcpSingle.Utilization

/-! ### Events -/

/-- What the receive call does. -/
inductive Received
  -- it returns -1
  | error
  -- it returns 0
  | nothing
  -- it returns the number of these bytes
  | chunk (bytes : List UInt8)
  deriving DecidableEq

def Received.bytes : Received → List UInt8
  | .error | .nothing => []
  | .chunk bytes => bytes

/-- The receive call has been given room for 0x1000 bytes. -/
def Received.Fits : Received → Prop
  | .error | .nothing => True
  | .chunk bytes => bytes ≠ [] ∧ bytes.length ≤ 0x1000

instance (r : Received) : Decidable r.Fits :=
  match r with
  | .error | .nothing => inferInstanceAs (Decidable True)
  | .chunk _ => inferInstanceAs (Decidable (_ ∧ _))

/-- A READ event, with what `idle_stop` returns if it is called. -/
structure ReadEvent where
  received : Received
  total : UInt64
  idle : UInt64
  deriving DecidableEq

/-! ### The servers -/

variable {σ γ : Type}

/-- A server with what it has done about each event. -/
structure Served (σ γ : Type) where
  state : σ
  log : List (ReadEvent × List γ)

/-- Any READ events, one after the other. -/
def readMachine (handle : σ → ReadEvent → σ × List γ) : Machine (Served σ γ) ReadEvent where
  ok _ e := e.received.Fits
  step s e :=
    let r := handle s.state e
    some { state := r.1, log := s.log ++ [(e, r.2)] }

instance decidable_readMachine_ok (handle : σ → ReadEvent → σ × List γ) (s : Served σ γ)
    (e : ReadEvent) : Decidable ((readMachine handle).ok s e) :=
  inferInstanceAs (Decidable e.received.Fits)

/-- What the calls of the handler return. -/
def ReadEvent.replies (e : ReadEvent) : Replies where
  accept := none
  recv := e.received.bytes
  total := e.total
  idle := e.idle

/-- All that the server on the stack does, but receiving. -/
def Call.isAction : Call → Bool
  | .picoSocketSend _ _ | .idleStart | .idleStop | .picoSocketShutdown _ => true
  | _ => false

/-- A READ event of the server on the stack. -/
def handleRead (socket : ℕ) (utilzMesg : List UInt8) (e : ReadEvent) : List UInt8 × List Call :=
  let r := handleTcpUtilizNotification utilzMesg { SockEvents.none with rd := true } socket
    e.replies
  (r.1, r.2.filter Call.isAction)

end Camkes.PicotcpSingle.Utilization

namespace Camkes.PicotcpTcpEcho

open PicotcpSingle.Utilization (ReadEvent)

/-- All that the server on PicoServer does, but receiving. -/
def Call.isUtilizAction : Call → Bool
  | .echoSendSend _ _ | .idleStart | .idleStop | .echoControlShutdown _ => true
  | _ => false

/-- A READ event of the server on PicoServer. -/
def handleUtilizRead (socket : ℤ) (s : State) (e : ReadEvent) : State × List Call :=
  let r := handleTcpUtilizNotification s (readEvent socket e.received.bytes (e.total, e.idle))
  (r.1, r.2.filter Call.isUtilizAction)

end Camkes.PicotcpTcpEcho

namespace Camkes.PicotcpSingle.Utilization

open PicotcpTcpEcho (bytesOf readEvent)

/-! ### What should be done -/

/-- The messages that a server does something about, as bytes. -/
def commandWords : List (List UInt8) :=
  [bytesOf "HELLO\n", bytesOf "LOAD cpu_target_lukem\n", bytesOf "SETUP args::\"\"\n",
    bytesOf "START\n", bytesOf "STOP\n"]

/-- The server on the stack does what the delivered bytes ask for, if they begin with a command, and
nothing else. -/
def ActsOnDelivered (socket : ℕ) (entry : ReadEvent × List Call) : Prop :=
  entry.2 = utilizCommand entry.1.received.bytes socket entry.1.replies

/-- The same for the server on PicoServer. -/
def UtilizActsOnDelivered (socket : ℤ) (entry : ReadEvent × List PicotcpTcpEcho.Call) : Prop :=
  entry.2 = PicotcpTcpEcho.utilizCommand entry.1.received.bytes socket
    (readEvent socket entry.1.received.bytes (entry.1.total, entry.1.idle)).replies

/-- The delivered bytes are not, with what the buffer holds behind them, a longer command. -/
def NothingStale (buf : List UInt8) (e : ReadEvent) : Prop :=
  ¬ Completes commandWords e.received.bytes (buf.drop e.received.bytes.length)

instance (buf : List UInt8) (e : ReadEvent) : Decidable (NothingStale buf e) :=
  inferInstanceAs (Decidable (¬ _))

end Camkes.PicotcpSingle.Utilization
