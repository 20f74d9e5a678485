import Camkes.EthdriverUboot.System

/-!
# The U-Boot Ethernet driver component with its dataports

`client_rx` leaves a frame in the dataport of its caller, and `client_tx` sends what is in it.  The
component shares the dataport of a client with that client alone, which reads and writes it whenever
it likes.

The component logs what the clients can see.
-/

namespace Camkes.EthdriverUboot

open CArray

/-- `ethdriver_shmem_size` in both assemblies. -/
def shmemSize : ℕ := 0x1000

abbrev Dataport := Vector UInt8 shmemSize

/-! ### Sending -/

/-- `ETHIF_TX_FAILED` -/
def ethifTxFailed : ℤ := -1

/-- `ETHIF_TX_COMPLETE` -/
def ethifTxComplete : ℤ := 1

structure TxResult where
  -- the return value
  ret : ℤ
  -- what has been passed to `uboot_eth_send`
  sent : Option Packet
  deriving DecidableEq

/-- `client_tx`, when `uboot_eth_send` returns `ubootEthSend`. -/
def clientTx (drv : Ethdriver) (dataports : UInt64 → Dataport) (sender : UInt32) (len : ℤ)
    (ubootEthSend : ℤ) : Option TxResult :=
  if !drv.doneInit then some { ret := -1, sent := none }
  else
    let len := if len > bufSize then (bufSize : ℤ) else len
    if len < 12 then some { ret := -1, sent := none }
    else do
      let i ← findSender drv.clients sender
      let client ← drv.clients[i]?
      let packet ← slice (dataports client.clientId) 0 len.toNat
      if 0 ≠ ubootEthSend then some { ret := ethifTxFailed, sent := some packet }
      else some { ret := ethifTxComplete, sent := some packet }

/-- `client_mac` -/
def clientMac (drv : Ethdriver) (sender : UInt32) : Option Mac := do
  let i ← findSender drv.clients sender
  let client ← drv.clients[i]?
  if drv.doneInit then some client.mac else none

/-! ### The machine -/

inductive Entry
  -- of `client_rx` and `server_init`
  | rx (o : Obs)
  -- client `i` has read a byte from its dataport
  | read (i : ℕ) (c : UInt8)
  -- a call of `client_tx` by client `i` has returned
  | tx (i : ℕ) (r : TxResult)
  -- a call of `client_mac` by client `i` has returned
  | mac (i : ℕ) (mac : Mac)
  deriving DecidableEq

structure Component where
  drv : Ethdriver
  -- the frames waiting in the U-Boot driver
  uboot : List Packet
  -- by the badge of the client
  dataports : UInt64 → Dataport
  log : List Entry

inductive Action
  -- a frame arrives, or a client calls `client_rx`
  | event (e : Event)
  -- client `i` reads or writes a byte of its dataport
  | read (i : ℕ) (off : Fin shmemSize)
  | write (i : ℕ) (off : Fin shmemSize) (c : UInt8)
  -- client `i` calls `client_tx`
  | tx (i : ℕ) (len ubootEthSend : ℤ)
  -- client `i` calls `client_mac`
  | mac (i : ℕ)

/-- The component right after `server_init`; nothing is known about the dataports. -/
def Component.init (t : Template) (dataports : UInt64 → Dataport) : Component where
  drv := (serverInit t).1
  uboot := []
  dataports := dataports
  log := ((serverInit t).2.map .effect).map .rx

/-- What an effect of `client_rx` does to the dataports. -/
def copyToDataport (dataports : UInt64 → Dataport) : Effect → Option (UInt64 → Dataport)
  | .memcpyDataport badge bytes => do
    let dataport ← memcpy (dataports badge) bytes
    some (Function.update dataports badge dataport)
  | _ => some dataports

/-- What a call of `client_rx` by client `i` adds to the trace. -/
def RxResult.trace (i : ℕ) (r : RxResult) : List Obs :=
  r.effects.map .effect ++ [.returned i r.ret r.len]

def Component.step (s : Component) : Action → Option Component
  | .event (.arrive packet) => some { s with uboot := s.uboot ++ [packet] }
  | .event (.rx i) => do
    let client ← s.drv.clients[i]?
    let r ← clientRx s.drv s.uboot client.clientId.toUInt32
    let dataports ← r.effects.foldlM copyToDataport s.dataports
    some { drv := r.drv, uboot := r.uboot, dataports,
           log := s.log ++ (r.trace i).map .rx }
  | .read i off => do
    let client ← s.drv.clients[i]?
    some { s with log := s.log ++ [.read i ((s.dataports client.clientId).get off)] }
  | .write i off c => do
    let client ← s.drv.clients[i]?
    let dataport := put (s.dataports client.clientId) off c
    some { s with dataports := Function.update s.dataports client.clientId dataport }
  | .tx i len ubootEthSend => do
    let client ← s.drv.clients[i]?
    let r ← clientTx s.drv s.dataports client.clientId.toUInt32 len ubootEthSend
    some { s with log := s.log ++ [.tx i r] }
  | .mac i => do
    let client ← s.drv.clients[i]?
    let mac ← clientMac s.drv client.clientId.toUInt32
    some { s with log := s.log ++ [.mac i mac] }

/-- The client that does it, if it is a client. -/
def Action.client? : Action → Option ℕ
  | .event (.arrive _) => none
  | .event (.rx i) | .read i _ | .write i _ _ | .tx i _ _ | .mac i => some i

/-- Frames with `okPacket` arrive, and the clients do what they like. -/
def componentMachine (okPacket : Packet → Prop) : Machine Component Action where
  ok s
    | .event (.arrive packet) => okPacket packet
    | .event (.rx i) | .read i _ | .write i _ _ | .tx i _ _ | .mac i => i < s.drv.clients.length
  step := Component.step

instance (okPacket : Packet → Prop) [DecidablePred okPacket] (s : Component) (a : Action) :
    Decidable ((componentMachine okPacket).ok s a) :=
  match a with
  | .event (.arrive packet) => inferInstanceAs (Decidable (okPacket packet))
  | .event (.rx i) | .read i _ | .write i _ _ | .tx i _ _ | .mac i =>
    inferInstanceAs (Decidable (i < s.drv.clients.length))

/-! ### What a client sees -/

/-- An entry that client `i` with this badge sees. -/
def Entry.seenBy (badge : UInt64) (i : ℕ) : Entry → Bool
  | .rx (.effect (.memcpyDataport b _)) => b = badge
  | .rx (.effect (.clientEmit b)) => b = badge.toUInt32
  | .rx (.effect _) => false
  | .rx (.returned j _ _) | .read j _ | .tx j _ | .mac j _ => j = i

/-- What client `i` does, and the frames for it. -/
def Action.concerns (clients : List Client) (i : ℕ) : Action → Bool
  | .event (.arrive packet) => routedTo clients packet i
  | .event (.rx j) | .read j _ | .write j _ _ | .tx j _ _ | .mac j => j = i

end Camkes.EthdriverUboot
