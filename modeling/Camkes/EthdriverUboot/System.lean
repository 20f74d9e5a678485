import Camkes.Data.BoundedFifo
import Camkes.Data.History
import Camkes.EthdriverUboot.ClientRx
import Camkes.Machine.Basic

/-!
# The U-Boot Ethernet driver component and its environment

Frames arrive at the U-Boot driver and the clients call `client_rx`, in any order.  The state keeps
a `trace` of everything the component has done: its effects, and the results of the calls.

`fifoOf` says what the trace means for one client: a frame freed by the component has been taken
from the U-Boot driver and is offered to the client's queue if it is routed to that client; a call
by the client takes the oldest frame of its queue.
-/

namespace Camkes.EthdriverUboot

/-! ### Traces -/

/-- One entry of a trace. -/
inductive Obs
  | effect (e : Effect)
  -- a call of `client_rx` by client `i` has returned `ret` and `*len`
  | returned (i : ℕ) (ret len : ℤ)
  deriving DecidableEq

/-- What a trace entry does to the queue of client `i`. -/
def fifoStep (clients : List Client) (i : ℕ) (q : BoundedFifo Packet (clientRxBufs - 1)) :
    Obs → BoundedFifo Packet (clientRxBufs - 1)
  | .effect (.ubootEthFreePacket packet) => if routedTo clients packet i then q.offer packet else q
  | .effect _ => q
  | .returned j _ _ => if j = i then q.take else q

/-- The queue of client `i` after a trace. -/
def fifoOf (clients : List Client) (i : ℕ) (trace : List Obs) :
    BoundedFifo Packet (clientRxBufs - 1) :=
  trace.foldl (fifoStep clients i) .empty

/-- The frames copied to the dataport of the client with this badge. -/
def copiedTo (badge : UInt64) (trace : List Obs) : List Packet :=
  trace.filterMap fun
    | .effect (.memcpyDataport b bytes) => if b = badge then some bytes else none
    | _ => none

/-- The frames that the component has taken from the U-Boot driver; it frees each of them. -/
def freed (trace : List Obs) : List Packet :=
  trace.filterMap fun
    | .effect (.ubootEthFreePacket packet) => some packet
    | _ => none

/-- The return value and `*len` of a call by a client with the given pending frames. -/
def rxReturn : List Packet → ℤ × ℤ
  | [] => (-1, 0)
  | [frame] => (0, frame.length)
  | frame :: _ :: _ => (1, frame.length)

/-- Every call has returned what the caller's queue asked for at that point of the trace. -/
def ReturnsRight (clients : List Client) (trace : List Obs) : Prop :=
  Along (fun before o => ∀ i ret len, o = .returned i ret len →
    (ret, len) = rxReturn (fifoOf clients i before).queue) trace

/-! ### The machine -/

structure System where
  drv : Ethdriver
  -- the frames waiting in the U-Boot driver
  uboot : List Packet
  trace : List Obs

inductive Event
  -- a frame reaches the U-Boot driver
  | arrive (packet : Packet)
  -- client `i` calls `client_rx`
  | rx (i : ℕ)
  deriving DecidableEq

/-- The frames that reach the U-Boot driver. -/
def arrived (es : List Event) : List Packet :=
  es.filterMap fun
    | .arrive packet => some packet
    | .rx _ => none

/-- The system right after `server_init`. -/
def System.init (t : Template) : System where
  drv := (serverInit t).1
  uboot := []
  trace := (serverInit t).2.map .effect

/-- One event: a client is known to `client_rx` by its badge, as an `unsigned int`. -/
def System.step (s : System) : Event → Option System
  | .arrive packet => some { s with uboot := s.uboot ++ [packet] }
  | .rx i => do
    let client ← s.drv.clients[i]?
    let r ← clientRx s.drv s.uboot client.clientId.toUInt32
    some { drv := r.drv, uboot := r.uboot,
           trace := s.trace ++ (r.effects.map .effect ++ [.returned i r.ret r.len]) }

/-- Frames with `okPacket` arrive and the clients call. -/
def machine (okPacket : Packet → Prop) : Machine System Event where
  ok s
    | .arrive packet => okPacket packet
    | .rx i => i < s.drv.clients.length
  step := System.step

instance (okPacket : Packet → Prop) [DecidablePred okPacket] (s : System) (e : Event) :
    Decidable ((machine okPacket).ok s e) :=
  match e with
  | .arrive packet => inferInstanceAs (Decidable (okPacket packet))
  | .rx i => inferInstanceAs (Decidable (i < s.drv.clients.length))

end Camkes.EthdriverUboot
