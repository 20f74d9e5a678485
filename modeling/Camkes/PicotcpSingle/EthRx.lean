import Camkes.Data.BoundedFifo
import Camkes.Machine.Basic
import Camkes.PicotcpSingle.EthBuf
import Mathlib.Data.Int.Notation

/-!
# The Ethernet driver of the picotcp single component: receiving

The hardware driver takes buffers with `eth_allocate_rx_buf`, the hardware writes frames into them,
and `eth_rx_complete` queues the buffer of a frame in the ring `pending_rx`.  `pico_eth_poll` hands
the frames of the ring to the PicoTCP stack and puts their buffers back into the pool.

The functions return `none` when a `NULL` pointer is followed or an access is out of bounds.
-/

namespace Camkes.PicotcpSingle.Ethdriver

open CArray

/-- A pointer into `rx_bufs`. -/
abbrev RxPtr := Fin rxBufs

/-- The static variables for receiving. -/
structure Rx where
  -- `rx_bufs`, `num_rx_bufs`, `rx_buf_pool`
  free : BufPool rxBufs
  pendingRxHead : ℕ
  pendingRxTail : ℕ
  pendingRx : Vector (Option RxPtr) rxBufs

/-- The static variables after the allocation loop of `setup_eth0`. -/
def Rx.init (free : BufPool rxBufs) : Rx where
  free
  pendingRxHead := 0
  pendingRxTail := 0
  pendingRx := Vector.replicate rxBufs none

/-- The memory that `buf` and `len` of an `eth_buf_t` describe. -/
structure Frame where
  buf : Option Block
  len : ℕ
  deriving DecidableEq

def EthBuf.frame (b : EthBuf) : Frame where
  buf := b.buf
  len := b.len

/-! ### Callbacks of the driver -/

/-- `eth_allocate_rx_buf`: the physical address and the cookie. -/
def ethAllocateRxBuf (rx : Rx) (size : ℕ) : Option (Rx × UInt64 × Option RxPtr) :=
  if size > bufSize then some (rx, 0, none)
  else if rx.free.num = 0 then some (rx, 0, none)
  else do
    let num := rx.free.num - 1
    let cookie ← rx.free.pool[num]?
    let b ← cookie
    some ({ rx with free := { rx.free with num } }, (rx.free.bufs.get b).phys, some b)

/-- The loop that puts all buffers back. -/
def putBack (free : BufPool rxBufs) (cookies : List RxPtr) : Option (BufPool rxBufs) :=
  cookies.foldlM BufPool.push free

/-- The buffer of a single frame is queued with its length. -/
def queueRx (rx : Rx) (currBuf : RxPtr) (len : ℕ) : Option Rx := do
  let bufs := put rx.free.bufs currBuf { rx.free.bufs.get currBuf with len }
  let pendingRx ← store rx.pendingRx rx.pendingRxHead (some currBuf)
  some { rx with
    free := { rx.free with bufs }
    pendingRx, pendingRxHead := (rx.pendingRxHead + 1) % rxBufs }

/-- `eth_rx_complete`, with the cookie and the length of each of the `num_bufs` buffers. -/
def ethRxComplete (rx : Rx) (bufs : List (RxPtr × ℕ)) : Option Rx :=
  match bufs with
  | [(currBuf, len)] =>
    if (rx.pendingRxHead + 1) % rxBufs = rx.pendingRxTail then do
      let free ← putBack rx.free [currBuf]
      some { rx with free }
    else queueRx rx currBuf len
  | _ => do
    let free ← putBack rx.free (bufs.map Prod.fst)
    some { rx with free }

/-! ### Polling -/

/-- The loop of `pico_eth_poll`.  `results` are the results of `pico_stack_recv`, which returns 0
after the last of them.  The loop ends with the loop score that is left; the calls of
`pico_stack_recv` are listed with their results. -/
def pollLoop (rx : Rx) (results : List ℤ) : ℕ → Option (Rx × ℕ × List (Frame × ℤ))
  | 0 => some (rx, 0, [])
  | loopScore + 1 =>
    if rx.pendingRxHead = rx.pendingRxTail then some (rx, loopScore + 1, [])
    else do
      let slot ← rx.pendingRx[rx.pendingRxTail]?
      let b ← slot
      let frame := (rx.free.bufs.get b).frame
      let err := results.headD 0
      if err ≤ 0 then some (rx, loopScore + 1, [(frame, err)])
      else
        let free ← rx.free.push b
        let rx := { rx with free, pendingRxTail := (rx.pendingRxTail + 1) % rxBufs }
        let (rx, loopScore, calls) ← pollLoop rx results.tail loopScore
        some (rx, loopScore, (frame, err) :: calls)

/-- `pico_eth_poll`: the loop score that is left is the result. -/
def picoEthPoll (rx : Rx) (loopScore : ℤ) (results : List ℤ) :
    Option (Rx × ℤ × List (Frame × ℤ)) :=
  if loopScore > 0 then do
    let (rx, loopScore, calls) ← pollLoop rx results loopScore.toNat
    some (rx, loopScore, calls)
  else some (rx, loopScore, [])

/-! ### The machine -/

/-- One entry of a trace. -/
inductive RxObs
  -- a single buffer has been completed with this frame in it
  | completed (frame : Frame)
  -- `pico_stack_recv` has been called
  | stackRecv (frame : Frame) (err : ℤ)
  -- `pico_eth_poll` has returned
  | polled (loopScore ret : ℤ)
  deriving DecidableEq

structure RxSystem where
  rx : Rx
  -- the buffers that the driver holds
  held : List RxPtr
  trace : List RxObs

inductive RxEvent
  | allocate (size : ℕ)
  -- the hardware writes to a buffer
  | dmaWrite (b : RxPtr) (block : Block)
  | complete (bufs : List (RxPtr × ℕ))
  | poll (loopScore : ℤ) (results : List ℤ)

def RxSystem.init (free : BufPool rxBufs) : RxSystem where
  rx := .init free
  held := []
  trace := []

/-- What is in a buffer that is completed on its own. -/
def completedFrame (rx : Rx) : List (RxPtr × ℕ) → List RxObs
  | [(b, len)] => [.completed { buf := (rx.free.bufs.get b).buf, len }]
  | _ => []

/-- The entries of the calls of `pico_stack_recv`. -/
def recvTrace (calls : List (Frame × ℤ)) : List RxObs :=
  calls.map fun call => .stackRecv call.1 call.2

/-- One event.  The driver takes a buffer when it gets a physical address. -/
def RxSystem.step (s : RxSystem) : RxEvent → Option RxSystem
  | .allocate size => do
    let (rx, phys, cookie) ← ethAllocateRxBuf s.rx size
    some { s with rx, held := if phys = 0 then s.held else cookie.toList ++ s.held }
  | .dmaWrite b block =>
    let bufs := put s.rx.free.bufs b { s.rx.free.bufs.get b with buf := some block }
    some { s with rx := { s.rx with free := { s.rx.free with bufs } } }
  | .complete bufs => do
    let rx ← ethRxComplete s.rx bufs
    some { rx, held := s.held.filter (· ∉ bufs.map Prod.fst),
           trace := s.trace ++ completedFrame s.rx bufs }
  | .poll loopScore results => do
    let (rx, ret, calls) ← picoEthPoll s.rx loopScore results
    some { s with rx, trace := s.trace ++ recvTrace calls ++ [.polled loopScore ret] }

/-- The driver completes buffers that it holds, each once, and the hardware writes to those only. -/
def rxMachine : Machine RxSystem RxEvent where
  ok s
    | .allocate _ => True
    | .dmaWrite b _ => b ∈ s.held
    | .complete bufs => (bufs.map Prod.fst).Nodup ∧ ∀ p ∈ bufs, p.1 ∈ s.held
    | .poll _ _ => True
  step := RxSystem.step

instance (s : RxSystem) (e : RxEvent) : Decidable (rxMachine.ok s e) :=
  match e with
  | .allocate _ => inferInstanceAs (Decidable True)
  | .dmaWrite b _ => inferInstanceAs (Decidable (b ∈ s.held))
  | .complete bufs => inferInstanceAs (Decidable
      ((bufs.map Prod.fst).Nodup ∧ ∀ p ∈ bufs, p.1 ∈ s.held))
  | .poll _ _ => inferInstanceAs (Decidable True)

/-- The queue of received frames that the trace asks for: a completed frame is offered, and a frame
that `pico_stack_recv` accepts is taken. -/
def framesOf (trace : List RxObs) : BoundedFifo Frame (rxBufs - 1) :=
  trace.foldl (fun q o => match o with
    | .completed frame => q.offer frame
    | .stackRecv _ err => if err > 0 then q.take else q
    | .polled _ _ => q) .empty

/-- The frames that `pico_stack_recv` has accepted. -/
def delivered (trace : List RxObs) : List Frame :=
  trace.filterMap fun
    | .stackRecv frame err => if err > 0 then some frame else none
    | _ => none

end Camkes.PicotcpSingle.Ethdriver
