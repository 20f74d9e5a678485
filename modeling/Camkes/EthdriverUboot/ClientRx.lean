import Camkes.EthdriverUboot.Basic
import Mathlib.Data.Int.Notation

/-!
# The U-Boot Ethernet driver component: `client_rx` and `server_init`

The U-Boot driver is a list of frames that wait to be taken with `uboot_eth_receive`, which returns
the length of the frame.  An empty frame in that list is a call of `uboot_eth_receive` that reports
no frame although more may follow, so a list of frames stands for any sequence of results of
`uboot_eth_receive`.

The functions return `none` when an assertion fails or an array is accessed out of bounds.
-/

namespace Camkes.EthdriverUboot

open CArray

/-! ### Receiving -/

/-- One frame for one client: it is copied to the slot at the head, or silently dropped when the
array is full. -/
def pendRx (packet : Packet) (client : Client) : Option Client :=
  if (client.pendingRxHead + 1) % clientRxBufs ≠ client.pendingRxTail then do
    let slot ← client.pendingRx[client.pendingRxHead]?
    let buf ← memcpy slot.buf packet
    let pendingRx ← store client.pendingRx client.pendingRxHead { buf, len := packet.length }
    some { client with
      pendingRx, pendingRxHead := (client.pendingRxHead + 1) % clientRxBufs }
  else some client

/-- The body of the receive loop for a frame that is not too long. -/
def copyRx (clients : List Client) (packet : Packet) : Option (List Client) :=
  match detectClient clients packet with
  | none =>
    if isBroadcast packet || isMulticast packet then clients.mapM (pendRx packet)
    else some clients
  | some i => do
    let client ← clients[i]?
    let client ← pendRx packet client
    some (clients.set i client)

/-- The receive loop: the clients, the frames left in the U-Boot driver and the effects. -/
def drain (clients : List Client) : List Packet → Option (List Client × List Packet × List Effect)
  | [] => some (clients, [], [])
  | packet :: uboot =>
    if packet.length = 0 then some (clients, uboot, [])
    else if packet.length > bufSize then
      some (clients, uboot, [.ubootEthFreePacket packet])
    else do
      let clients ← copyRx clients packet
      let (clients, uboot, effects) ← drain clients uboot
      some (clients, uboot, .ubootEthFreePacket packet :: effects)

/-- What a call of `client_rx` leaves behind. -/
structure RxResult where
  -- the return value
  ret : ℤ
  -- the value stored in `*len`
  len : ℤ
  drv : Ethdriver
  -- the frames left in the U-Boot driver
  uboot : List Packet
  effects : List Effect

/-- The second part of `client_rx`: hand the oldest pending frame to the caller. -/
def deliverRx (clients : List Client) (sender : UInt32) :
    Option (ℤ × ℤ × List Client × List Effect) := do
  let i ← findSender clients sender
  let client ← clients[i]?
  if client.pendingRxHead = client.pendingRxTail then
    some (-1, 0, clients, [.clientEmit client.clientId.toUInt32])
  else
    let rx ← client.pendingRx[client.pendingRxTail]?
    let bytes ← slice rx.buf 0 rx.len
    let client := { client with pendingRxTail := (client.pendingRxTail + 1) % clientRxBufs }
    let copy := Effect.memcpyDataport client.clientId bytes
    if client.pendingRxTail = client.pendingRxHead then
      some (0, rx.len, clients.set i client, [copy, .clientEmit client.clientId.toUInt32])
    else
      some (1, rx.len, clients.set i client, [copy])

/-- `client_rx`, called by the client that the RPC layer knows as `sender`. -/
def clientRx (drv : Ethdriver) (uboot : List Packet) (sender : UInt32) : Option RxResult :=
  if !drv.doneInit then some { ret := -1, len := 0, drv, uboot, effects := [] }
  else do
    let (clients, uboot, frees) ← drain drv.clients uboot
    let (ret, len, clients, effects) ← deliverRx clients sender
    some { ret, len, drv := { drv with clients }, uboot, effects := frees ++ effects }

/-! ### Initialisation -/

/-- What the Ethdriver template and the U-Boot library tell the component. -/
structure Template where
  -- `client_enumerate_badge(0)` up to `client_enumerate_badge(client_num_badges() - 1)`
  badges : List UInt64
  clientHasMac : UInt32 → Bool
  clientGetMac : UInt32 → Mac
  initialiseUbootDrivers : ℤ
  ubootEthInit : ℤ
  ubootEthGetEthaddr : Mac

/-- A client after the first loop of `server_init`, which zeroes everything but the badge. -/
def Client.fresh (badge : UInt64) : Client where
  pendingRxHead := 0
  pendingRxTail := 0
  pendingRx := Vector.replicate clientRxBufs { buf := Vector.replicate bufSize 0, len := 0 }
  mac := Vector.replicate 6 0
  clientId := badge

/-- The second loop of `server_init`, with its counter `num_defaults`. -/
def assignMacs (t : Template) : List Client → ℕ → List Client × List Effect
  | [], _ => ([], [])
  | client :: clients, numDefaults =>
    let id := client.clientId.toUInt32
    if t.clientHasMac id then
      let (rest, effects) := assignMacs t clients numDefaults
      ({ client with mac := t.clientGetMac id } :: rest, effects)
    else
      let (rest, effects) := assignMacs t clients (numDefaults + 1)
      ({ client with mac := t.ubootEthGetEthaddr } :: rest,
        if numDefaults + 1 > 1 then
          .zfLogf "Should not have 2 clients with the same MAC address" :: effects
        else effects)

/-- `server_init`. -/
def serverInit (t : Template) : Ethdriver × List Effect :=
  let (clients, effects) := assignMacs t (t.badges.map Client.fresh) 0
  ({ doneInit := true, clients },
    (if t.initialiseUbootDrivers ≠ 0 then [.zfLogf "Unable to find an ethernet device"] else []) ++
    (if t.ubootEthInit ≠ 0 then [.zfLogf "Unable to initialise ethernet"] else []) ++
    effects ++ clients.map fun client => .clientEmit client.clientId.toUInt32)

end Camkes.EthdriverUboot
