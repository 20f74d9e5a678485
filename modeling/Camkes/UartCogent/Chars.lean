import Camkes.Data.Polling

/-!
# The characters of `uart_cogent`

`uart_get_char` and `uart_put_char` of the driver (`serial.ac`), and the client that writes a
message and prints what it receives, up to a `q`.

A `Reading` is what the registers contain when they are read.  The readings are a list, and the
component waits where they end.
-/

namespace Camkes.UartCogent

open Polling (Out)

/-- Status register 2, and the receiver register if it is read next. -/
structure Reading where
  sr2 : UInt32
  rxd : UInt32

/-- `UART_SR2_RXFIFO_RDR` -/
def uartSr2RxfifoRdr : UInt32 := (1 : UInt32) <<< 0

/-- `UART_SR2_TXFIFO_EMPTY` -/
def uartSr2TxfifoEmpty : UInt32 := (1 : UInt32) <<< 14

/-- `UART_URXD_READY_MASK` -/
def uartUrxdReadyMask : UInt32 := (1 : UInt32) <<< 15

/-- `UART_BYTE_MASK` -/
def uartByteMask : UInt32 := 0xFF

/-- -1 as a `char`. -/
def noChar : UInt8 := 0xFF

def uartGetChar (r : Reading) : UInt8 :=
  if r.sr2 &&& uartSr2RxfifoRdr ≠ 0 then
    if r.rxd &&& uartUrxdReadyMask ≠ 0 then (r.rxd &&& uartByteMask).toUInt8 else noChar
  else noChar

/-- The transmit FIFO is empty, which `uart_put_char` waits for. -/
def txfifoEmpty (r : Reading) : Bool := r.sr2 &&& uartSr2TxfifoEmpty ≠ 0

def uartPutChar (c : UInt8) (rs : List Reading) : Out UInt8 Reading :=
  if c = '\n'.toUInt8 then
    -- the inner call is for another character
    (Polling.put txfifoEmpty '\r'.toUInt8 rs).bind (Polling.put txfifoEmpty c)
  else Polling.put txfifoEmpty c rs

/-! ### The client -/

def uartWrite : List UInt8 → List Reading → Out UInt8 Reading
  | [], rs => ([], some rs)
  | c :: data, rs => (uartPutChar c rs).bind (uartWrite data)

def str : List UInt8 := "This message is sent via UART.\n".toList.map Char.toUInt8

/-- What is printed, and whether the loop has been left. -/
def readLoop : List Reading → List UInt8 × Bool
  | [] => ([], false)
  | r :: rs =>
    let c := uartGetChar r
    let printed := if c ≠ noChar then [c] else []
    if c = 'q'.toUInt8 then (printed, true)
    else (printed ++ (readLoop rs).1, (readLoop rs).2)

structure Result where
  -- what has been written to the transmitter register
  sent : List UInt8
  printed : List UInt8
  exited : Bool

def run (rs : List Reading) : Result :=
  match uartWrite str rs with
  | (sent, none) => ⟨sent, [], false⟩
  | (sent, some rest) => ⟨sent, (readLoop rest).1, (readLoop rest).2⟩

end Camkes.UartCogent
