import Camkes.Machine.Basic
import Camkes.PicotcpSingle.EthBuf
import Mathlib.Data.Int.Notation

/-!
# The Ethernet driver of the picotcp single component: sending

`pico_eth_send` copies a frame into a buffer from the pool and hands the buffer to the hardware
driver with `raw_tx`.  The driver gives buffers back by calling `eth_tx_complete`, later or before
`raw_tx` returns.

As in the receiving half, `none` is a failed assertion or an access through `NULL` or out of bounds.
-/

namespace Camkes.PicotcpSingle.Ethdriver

open CArray

/-- A pointer into `tx_bufs`. -/
abbrev TxPtr := Fin txBufs

/-- The results of `raw_tx`. -/
inductive EthifTx
  | failed
  | enqueued
  -- the frame was sent at once
  | complete
  deriving DecidableEq

/-- What `raw_tx` does. -/
structure RawTx where
  -- the buffers that it completes before it returns
  completed : List TxPtr
  err : EthifTx

/-- The arguments of a call of `raw_tx` with one buffer. -/
structure RawTxCall where
  phys : UInt64
  len : ℕ
  cookie : TxPtr

/-- `eth_tx_complete`. -/
def ethTxComplete (tx : BufPool txBufs) (cookie : TxPtr) : Option (BufPool txBufs) :=
  tx.push cookie

/-- The `switch` in `pico_eth_send` on the result of a call of `raw_tx`. -/
def afterRawTx (tx : BufPool txBufs) (call : RawTxCall) :
    EthifTx → Option (BufPool txBufs × ℤ × Option RawTxCall)
  | .failed => do
    let tx ← tx.push call.cookie
    some (tx, 0, some call)
  | .complete | .enqueued => some (tx, call.len, some call)

/-- `pico_eth_send`: the result, and the call of `raw_tx` if there is one. -/
def picoEthSend (tx : BufPool txBufs) (inputBuf : List UInt8) (rawTx : RawTx) :
    Option (BufPool txBufs × ℤ × Option RawTxCall) :=
  let len := inputBuf.length
  if len < 12 then none
  else if tx.num = 0 then some (tx, 0, none)
  else do
    let num := tx.num - 1
    let slot ← tx.pool[num]?
    let txBuf ← slot
    let block ← (tx.bufs.get txBuf).buf
    let block ← memcpy block inputBuf
    let bufs := put tx.bufs txBuf { tx.bufs.get txBuf with buf := some block }
    let call : RawTxCall := { phys := (tx.bufs.get txBuf).phys, len, cookie := txBuf }
    let tx ← rawTx.completed.foldlM ethTxComplete { tx with bufs, num }
    afterRawTx tx call rawTx.err

/-! ### The machine -/

structure TxSystem where
  tx : BufPool txBufs
  -- the buffers that are enqueued and not yet completed, each with the frame it was enqueued with
  held : List (TxPtr × List UInt8)

inductive TxEvent
  | send (inputBuf : List UInt8) (rawTx : RawTx)
  | txComplete (cookie : TxPtr)

def TxSystem.init (tx : BufPool txBufs) : TxSystem where
  tx
  held := []

/-- What a call of `raw_tx` adds to the buffers that the driver holds. -/
def enqueues (inputBuf : List UInt8) (err : EthifTx) : Option RawTxCall → List (TxPtr × List UInt8)
  | some call => if err = .enqueued then [(call.cookie, inputBuf)] else []
  | none => []

/-- One event.  Without a call of `raw_tx` nothing is completed. -/
def TxSystem.step (s : TxSystem) : TxEvent → Option TxSystem
  | .send inputBuf rawTx => do
    let (tx, _, call) ← picoEthSend s.tx inputBuf rawTx
    let held := enqueues inputBuf rawTx.err call ++ s.held
    some { tx, held := if call.isSome then held.filter (·.1 ∉ rawTx.completed) else held }
  | .txComplete cookie => do
    let tx ← ethTxComplete s.tx cookie
    some { tx, held := s.held.filter (·.1 ≠ cookie) }

/-- The buffers that `raw_tx` may complete: those that the driver holds, and the new one when it
gets enqueued. -/
def TxSystem.completable (s : TxSystem) (err : EthifTx) : List TxPtr :=
  (if err = .enqueued then s.tx.pool[s.tx.num - 1]?.join.toList else []) ++ s.held.map Prod.fst

/-- Frames fit into a buffer, and each enqueued buffer is completed at most once. -/
def txMachine : Machine TxSystem TxEvent where
  ok s
    | .send inputBuf rawTx => 12 ≤ inputBuf.length ∧ inputBuf.length ≤ bufSize ∧
        rawTx.completed.Nodup ∧ rawTx.completed.all (· ∈ s.completable rawTx.err)
    | .txComplete cookie => cookie ∈ s.held.map Prod.fst
  step := TxSystem.step

instance (s : TxSystem) (e : TxEvent) : Decidable (txMachine.ok s e) :=
  match e with
  | .send inputBuf rawTx => inferInstanceAs (Decidable
      (12 ≤ inputBuf.length ∧ inputBuf.length ≤ bufSize ∧
        rawTx.completed.Nodup ∧ rawTx.completed.all (· ∈ s.completable rawTx.err)))
  | .txComplete cookie => inferInstanceAs (Decidable (cookie ∈ s.held.map Prod.fst))

end Camkes.PicotcpSingle.Ethdriver
