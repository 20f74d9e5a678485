import Camkes.PicotcpSingle.EthBuf

/-!
# The Ethernet driver of the picotcp single component: setup

The two allocation loops of `setup_eth0`, with the calls they make.  The allocations are numbered in
the order of the loops, the receive buffers first, and a block of DMA memory is the number of the
allocation that returned it.
-/

namespace Camkes.PicotcpSingle.Ethdriver

/-- An allocation of `setup_eth0`. -/
abbrev Allocation := Fin (rxBufs + txBufs)

/-- A call of the allocation loops.  A `NULL` block is `none`. -/
inductive DmaCall
  -- `ps_dma_alloc`
  | alloc (k : Allocation)
  -- `memset(buf->buf, 0, BUF_SIZE)`
  | memset (block : Option Allocation)
  -- `ps_dma_pin`
  | pin (block : Option Allocation)
  deriving DecidableEq

/-- The block that `ps_dma_alloc` returns. -/
def allocated? (dma : Allocation → Dma) (k : Allocation) : Option Allocation :=
  if (dma k).alloc then some k else none

/-- The calls of the body of an allocation loop.  Without a block it does not get past `memset`. -/
def bodyCalls (dma : Allocation → Dma) (k : Allocation) : List DmaCall :=
  match allocated? dma k with
  | none => [.alloc k, .memset none]
  | some block => [.alloc k, .memset (some block), .pin (some block)]

section Loop

variable {n : ℕ}

/-- An allocation loop over the buffers `is`, whose buffer `i` has the allocation `no i`, with its
calls. -/
def allocLoop (dma : Allocation → Dma) (no : Fin n → Allocation) (p : BufPool n) :
    List (Fin n) → List DmaCall × Except SetupError (BufPool n)
  | [] => ([], .ok p)
  | i :: is =>
    match allocBuf (dma ∘ no) p i with
    | .error err => (bodyCalls dma (no i), .error err)
    | .ok p =>
      let rest := allocLoop dma no p is
      (bodyCalls dma (no i) ++ rest.1, rest.2)

end Loop

/-- The buffers and pools of both directions. -/
structure EthPools where
  rx : BufPool rxBufs
  tx : BufPool txBufs

/-- The allocation loops of `setup_eth0`, with their calls. -/
def setupEth0 (dma : Allocation → Dma) : List DmaCall × Except SetupError EthPools :=
  let rx := allocLoop dma (Fin.castAdd txBufs) .boot (List.finRange rxBufs)
  match rx.2 with
  | .error err => (rx.1, .error err)
  | .ok rxPool =>
    let tx := allocLoop dma (Fin.natAdd rxBufs) .boot (List.finRange txBufs)
    (rx.1 ++ tx.1, tx.2.map fun txPool => { rx := rxPool, tx := txPool })

end Camkes.PicotcpSingle.Ethdriver
