import Mathlib.Data.Nat.Notation

/-!
# The picotcp single component: socket events and tuning parameters

`picotcp_single_component` links the PicoTCP stack, an Ethernet driver and two echo servers into one
component.  The stack calls a server with the events of a socket; the server calls the stack to
receive and send.  What the stack answers is part of an event of the models here.
-/

namespace Camkes.PicotcpSingle

/-- `UDP_READ_SIZE`. -/
def udpReadSize : ℕ := 1400

/-- `TCP_READ_SIZE`. -/
def tcpReadSize : ℕ := 1400

/-- `MAX_TCP_CLIENTS`. -/
def maxTcpClients : ℕ := 5

/-- `RX_BUFS`. -/
def rxBufs : ℕ := 510

/-- `TX_BUFS`. -/
def txBufs : ℕ := 510

/-- `BUF_SIZE`. -/
def bufSize : ℕ := 2048

/-- The size of the page-aligned packet buffers. -/
def packetSize : ℕ := 0x1000

/-- The bits `PICO_SOCK_EV_…` of the `uint16_t events` that a server looks at. -/
structure SockEvents where
  rd : Bool
  wr : Bool
  conn : Bool
  close : Bool
  fin : Bool
  err : Bool
  deriving DecidableEq

/-- No event. -/
def SockEvents.none : SockEvents where
  rd := false
  wr := false
  conn := false
  close := false
  fin := false
  err := false

end Camkes.PicotcpSingle
