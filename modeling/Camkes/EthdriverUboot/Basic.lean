import Camkes.Data.CArray

/-!
# The U-Boot Ethernet driver component: data and frame classification

`security_demo/EthDriverUboot` and `picoserver_uboot/EthdriverUboot` share one source text.  The
component owns a table of clients, each with a cyclic array of received frames, and takes frames
from the U-Boot driver.  This module has its data and the functions that decide for which clients a
frame is meant (`detect_client`, `is_broadcast`, `is_multicast`); `ClientRx` has `client_rx` and
`server_init`.

A frame in the hands of the U-Boot driver is the list of its bytes.  What the component does to the
outside is a list of `Effect`s.
-/

namespace Camkes.EthdriverUboot

/-! ### Data -/

/-- `CLIENT_RX_BUFS`. -/
def clientRxBufs : ℕ := 128

/-- `BUF_SIZE`. -/
def bufSize : ℕ := 2048

instance : Fact (0 < clientRxBufs) := ⟨by decide⟩

/-- A frame received by the U-Boot driver. -/
abbrev Packet := List UInt8

abbrev Mac := Vector UInt8 6

/-- `rx_frame_t`. -/
structure RxFrame where
  buf : Vector UInt8 bufSize
  len : ℕ

/-- `client_t`.  The dataport is known to the outside by its client's badge. -/
structure Client where
  pendingRxHead : ℕ
  pendingRxTail : ℕ
  pendingRx : Vector RxFrame clientRxBufs
  mac : Mac
  clientId : UInt64

/-- What the component does to its environment. -/
inductive Effect
  -- `uboot_eth_free_packet`
  | ubootEthFreePacket (packet : Packet)
  -- `memcpy` to the dataport of a client
  | memcpyDataport (clientId : UInt64) (bytes : List UInt8)
  -- `client_emit`
  | clientEmit (clientId : UInt32)
  -- a message logged at the fatal level
  | zfLogf (message : String)
  deriving DecidableEq

/-- The static variables of the component; `num_clients` is the length of `clients`. -/
structure Ethdriver where
  doneInit : Bool
  clients : List Client

/-- The static variables before initialisation. -/
def Ethdriver.boot : Ethdriver where
  doneInit := false
  clients := []

/-! ### Whom a frame is for -/

/-- `detect_client`: the index of the first client whose MAC is the destination of the frame. -/
def detectClient (clients : List Client) (buf : Packet) : Option ℕ :=
  if buf.length < 6 then none
  else clients.findIdx? fun client => client.mac.toList = buf.take 6

/-- `is_broadcast`. -/
def isBroadcast (buf : Packet) : Bool :=
  if buf.length < 6 then false
  else buf.take 6 = [0xff, 0xff, 0xff, 0xff, 0xff, 0xff]

/-- Four bytes read into a `uint32_t` on a little-endian machine. -/
def uint32OfBytes (bytes : List UInt8) : UInt32 :=
  bytes.foldr (fun b addr => addr <<< 8 ||| b.toUInt32) 0

/-- `is_multicast`. -/
def isMulticast (buf : Packet) : Bool :=
  let ethHeaderLen := 14
  let ipHdrDestOffset := 16
  if buf.length < ethHeaderLen + ipHdrDestOffset + 4 then false
  else
    let addr := uint32OfBytes ((buf.drop (ethHeaderLen + ipHdrDestOffset)).take 4)
    addr &&& 0xf0 = 0xe0

/-- The frame is routed to client `i`: by its destination MAC if a client has it, else as a
broadcast or multicast frame. -/
def routedTo (clients : List Client) (buf : Packet) (i : ℕ) : Bool :=
  match detectClient clients buf with
  | some j => i == j
  | none => isBroadcast buf || isMulticast buf

/-! ### Who is calling -/

/-- The value of `int id = client_get_sender_id()` in a comparison with a `seL4_Word`. -/
def senderWord (sender : UInt32) : UInt64 := sender.toInt32.toInt64.toUInt64

/-- The badge is what `int id` holds after its client has called. -/
def FitsInt (badge : UInt64) : Prop := senderWord badge.toUInt32 = badge

/-- The search loop over the clients by badge: it does not stop at a match, so the last one
counts. -/
def findSender (clients : List Client) (sender : UInt32) : Option ℕ :=
  clients.zipIdx.foldl
    (fun found ci => if ci.1.clientId = senderWord sender then some ci.2 else found) none

end Camkes.EthdriverUboot
