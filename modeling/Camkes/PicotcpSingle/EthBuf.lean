import Camkes.Data.Stack
import Camkes.PicotcpSingle.Basic
import Mathlib.Data.List.FinRange

/-!
# The Ethernet driver of the picotcp single component: buffers

`ethdriver.c` has an array of buffers and a pool of free buffers for each direction.  Here both are
a `BufPool n`: a pointer `eth_buf_t *` is an index of the array, and the pool is a stack of
pointers.  `setup_eth0` allocates the buffers and fills the pools.
-/

namespace Camkes.PicotcpSingle.Ethdriver

open CArray

/-- A block of DMA memory. -/
abbrev Block := Vector UInt8 bufSize

/-- `eth_buf_t`. -/
structure EthBuf where
  -- `NULL` is `none`
  buf : Option Block
  phys : UInt64
  len : ℕ

/-- The buffers of one direction and the pool of those that are free. -/
structure BufPool (n : ℕ) where
  -- `rx_bufs`, `tx_bufs`
  bufs : Vector EthBuf n
  -- `num_rx_bufs`, `num_tx`
  num : ℕ
  -- `rx_buf_pool`, `tx_buf_pool`
  pool : Vector (Option (Fin n)) n

variable {n : ℕ}

/-- The static variables before setup. -/
def BufPool.boot : BufPool n where
  bufs := Vector.replicate n { buf := none, phys := 0, len := 0 }
  num := 0
  pool := Vector.replicate n none

/-- `pool[num] = buf; num++`. -/
def BufPool.push (p : BufPool n) (b : Fin n) : Option (BufPool n) := do
  let pool ← store p.pool p.num (some b)
  some { p with pool, num := p.num + 1 }

/-! ### Setup -/

/-- The results of `ps_dma_alloc` and `ps_dma_pin` for one buffer. -/
structure Dma where
  -- `ps_dma_alloc` returns a block, not `NULL`
  alloc : Bool
  phys : UInt64

/-- How the allocation loops end when they do not finish. -/
inductive SetupError
  -- an access through `NULL` or out of bounds
  | fault
  -- `return -1`
  | failed
  deriving DecidableEq

/-- `memset(buf->buf, 0, BUF_SIZE)` on a new block, and `buf->phys = phys`. -/
def EthBuf.setup (b : EthBuf) (phys : UInt64) : EthBuf :=
  { b with buf := some (Vector.replicate bufSize 0), phys }

/-- The body of an allocation loop.  The test after `ps_dma_alloc` is on the address of the
`eth_buf_t`, which is never `NULL`. -/
def allocBuf (dma : Fin n → Dma) (p : BufPool n) (i : Fin n) : Except SetupError (BufPool n) :=
  if !(dma i).alloc then .error .fault
  else if (dma i).phys = 0 then .error .failed
  else
    let bufs := put p.bufs i ((p.bufs.get i).setup (dma i).phys)
    match { p with bufs }.push i with
    | some p => .ok p
    | none => .error .fault

/-- An allocation loop. -/
def allocBufs (dma : Fin n → Dma) : Except SetupError (BufPool n) :=
  (List.finRange n).foldlM (allocBuf dma) .boot

/-- The allocation loop of `setup_eth0` for the receive buffers. -/
def setupRxBufs (dma : Fin rxBufs → Dma) : Except SetupError (BufPool rxBufs) := allocBufs dma

/-- The allocation loop of `setup_eth0` for the transmit buffers. -/
def setupTxBufs (dma : Fin txBufs → Dma) : Except SetupError (BufPool txBufs) := allocBufs dma

end Camkes.PicotcpSingle.Ethdriver
