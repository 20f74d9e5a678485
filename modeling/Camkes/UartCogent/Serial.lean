import Mathlib.Data.BitVec

/-!
# The serial driver of `uart_cogent`

`serial.cogent` configures an i.MX UART.  It works on a copy of the registers.
-/

namespace Camkes.UartCogent

abbrev U32 := BitVec 32

abbrev U64 := BitVec 64

/-- `const_UART_REF_CLK`. -/
def uartRefClk : U32 := 50000000

/-! ### Flags -/

def flagUartCr1Uarten : U32 := 1 <<< 0

def flagUartCr1Rrdyen : U32 := 1 <<< 9

def flagUartCr2Srst : U32 := 1 <<< 0

def flagUartCr2Rxen : U32 := 1 <<< 1

def flagUartCr2Txen : U32 := 1 <<< 2

def flagUartCr2Ws : U32 := 1 <<< 5

def flagUartCr2Stpb : U32 := 1 <<< 6

def flagUartCr2Proe : U32 := 1 <<< 7

def flagUartCr2Pren : U32 := 1 <<< 8

def flagUartCr2Irts : U32 := 1 <<< 14

def flagUartCr3Rxdmuxdel : U32 := 1 <<< 2

def uartFcrRfdiv (x : U32) : U32 := x * (1 <<< 7)

def uartFcrRfdivMask : U32 := uartFcrRfdiv 0x7

def uartFcrRxtl (x : U32) : U32 := x * (1 <<< 0)

def uartFcrRxtlMask : U32 := uartFcrRxtl 0x1F

/-! ### Registers -/

@[ext]
structure IMXUartRegs where
  rxd : U32
  txd : U32
  cr1 : U32
  cr2 : U32
  cr3 : U32
  cr4 : U32
  fcr : U32
  sr1 : U32
  sr2 : U32
  esc : U32
  tim : U32
  bir : U32
  bmr : U32
  brc : U32
  onems : U32
  ts : U32
  deriving DecidableEq

/-! ### Configuration -/

/-- The conversion of `bps` drops its upper half, and a division by zero is zero. -/
def imxUartSetBaudCg (regs : IMXUartRegs) (bps : U64) : IMXUartRegs :=
  let fcr := regs.fcr &&& ~~~uartFcrRfdivMask
  let fcr := fcr ||| uartFcrRfdiv 4
  let bir := 0xF
  let bmr := uartRefClk / (bps.setWidth 32 - 1)
  { regs with fcr, bir, bmr }

inductive Parity
  | none
  | even
  | odd
  deriving DecidableEq

def computeCr2ByParity (p : Parity) (cr2 : U32) : U32 :=
  match p with
  | .none => cr2 &&& ~~~flagUartCr2Pren
  | .odd =>
    let cr2 := cr2 ||| flagUartCr2Pren
    cr2 ||| flagUartCr2Proe
  | .even =>
    let cr2 := cr2 ||| flagUartCr2Pren
    cr2 &&& ~~~flagUartCr2Proe

def serialConfigureCg (regs : IMXUartRegs) (bps : U64) (charSize : U32) (parity : Parity)
    (stopBits : U32) : IMXUartRegs :=
  let cr2 := regs.cr2
  let cr2 :=
    if charSize = 8 then cr2 ||| flagUartCr2Ws
    else if charSize = 7 then cr2 &&& ~~~flagUartCr2Ws
    else 0
  let cr2 :=
    if stopBits = 2 then cr2 ||| flagUartCr2Stpb
    else if stopBits = 1 then cr2 &&& ~~~flagUartCr2Stpb
    else 0
  let cr2 := computeCr2ByParity parity cr2
  let regs := { regs with cr2 }
  imxUartSetBaudCg regs bps

def uartSwResetCg (regs : IMXUartRegs) : IMXUartRegs :=
  { regs with cr2 := regs.cr2 &&& ~~~flagUartCr2Srst }

def uartInitCg (regs : IMXUartRegs) : IMXUartRegs :=
  let regs := uartSwResetCg regs
  let regs := serialConfigureCg regs 115200 8 .none 1
  -- enable the UART
  let cr1 := regs.cr1 ||| flagUartCr1Uarten
  let cr2 := regs.cr2 ||| flagUartCr2Rxen ||| flagUartCr2Txen
  let cr2 := cr2 ||| flagUartCr2Irts
  let cr3 := regs.cr3 ||| flagUartCr3Rxdmuxdel
  -- initialise the receiver interrupt
  let cr1 := cr1 &&& ~~~flagUartCr1Rrdyen
  let fcr := regs.fcr &&& ~~~uartFcrRxtlMask
  let fcr := fcr ||| uartFcrRxtl 1
  let cr1 := cr1 ||| flagUartCr1Rrdyen
  { regs with cr1, cr2, cr3, fcr }

end Camkes.UartCogent
