import Camkes.Data.Polling

/-!
# The UART of `uart`

The driver polls the status register of an i.MX UART, before it writes a character and until it has
received one; the client writes a message and prints what it receives, up to a `q`.

A `Reading` is what the registers contain when they are read.  The readings are a list, and the
component waits where they end.
-/

namespace Camkes.Uart

open Polling (Out)

/-- The status register, and the receive register if it is read next. -/
structure Reading where
  stat : UInt32
  rx : UInt32

/-- `UART1_RX_RDY` -/
def rxRdy : UInt32 := (1 : UInt32) <<< 9

/-- `UART1_TX_RDY` -/
def txRdy : UInt32 := (1 : UInt32) <<< 13

/-- `UART1_RX_MASK` -/
def rxMask : UInt32 := 0xFF

def uartReceived (r : Reading) : Bool := r.stat &&& rxRdy ≠ 0

def isTransmitEmpty (r : Reading) : Bool := r.stat &&& txRdy ≠ 0

/-- The character, with the readings that are left. -/
def uartGetChar : List Reading → Option (UInt8 × List Reading)
  | [] => none
  | r :: rs => if uartReceived r then some ((r.rx &&& rxMask).toUInt8, rs) else uartGetChar rs

def uartPutChar (c : UInt8) (rs : List Reading) : Out UInt8 Reading :=
  Polling.put isTransmitEmpty c rs

/-! ### The client -/

/-- `uart_write` -/
def uartWrite : List UInt8 → List Reading → Out UInt8 Reading
  | [], rs => ([], some rs)
  | c :: data, rs => (uartPutChar c rs).bind (uartWrite data)

def str : List UInt8 := "This message is sent via UART.\n".toList.map Char.toUInt8

theorem length_lt_of_uartGetChar {rs rest : List Reading} {c : UInt8}
    (h : uartGetChar rs = some (c, rest)) : rest.length < rs.length := by
  induction rs with
  | nil => cases h
  | cons r rs ih =>
    rw [uartGetChar] at h
    rw [List.length_cons]
    split_ifs at h
    · obtain ⟨-, rfl⟩ := Prod.mk.inj (Option.some.inj h)
      exact Nat.lt_succ_self _
    · exact Nat.lt_succ_of_lt (ih h)

/-- What is printed, and whether the loop has been left. -/
def readLoop (rs : List Reading) : List UInt8 × Bool :=
  match h : uartGetChar rs with
  | none => ([], false)
  | some (c, rest) =>
    if c = 'q'.toUInt8 then ([c], true)
    else
      have := length_lt_of_uartGetChar h
      (c :: (readLoop rest).1, (readLoop rest).2)
termination_by rs.length

structure Result where
  -- what has been written to the transmit register
  sent : List UInt8
  printed : List UInt8
  exited : Bool

def run (rs : List Reading) : Result :=
  match uartWrite str rs with
  | (sent, none) => ⟨sent, [], false⟩
  | (sent, some rest) => ⟨sent, (readLoop rest).1, (readLoop rest).2⟩

end Camkes.Uart
