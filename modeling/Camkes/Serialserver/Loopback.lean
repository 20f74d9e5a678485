import Camkes.Data.Heap

/-!
# The read path of `serialserver_loopback`

`handle_read_callback` takes a completed read from the virtqueue, copies it to a temporary buffer
and writes it back with `write_output`.  A `Completion` says what the calls return to it.
-/

namespace Camkes.Serialserver.Loopback

/-- What `camkes_virtqueue_driver_gather_copy_buffer` does for a buffer of `len` bytes. -/
inductive Gather (len : ℕ)
  -- it returns 0 and has copied all bytes
  | copied (bytes : Vector UInt8 len)
  -- it returns another value, and may have copied some bytes before
  | failed (bytes : List UInt8) (length_le : bytes.length ≤ len)

/-- The bytes that have been copied. -/
def Gather.bytes {len : ℕ} : Gather len → List UInt8
  | copied bytes => bytes.toList
  | failed bytes _ => bytes

/-- It has returned 0. -/
def Gather.ok {len : ℕ} : Gather len → Bool
  | copied _ => true
  | failed _ _ => false

inductive Completion
  -- `virtqueue_get_used_buf` fails
  | dequeueFailed
  -- `calloc` returns NULL
  | noMemory (len : UInt32)
  -- `calloc` returns a buffer; `sent` says whether `camkes_virtqueue_driver_scatter_send_buffer`
  -- returns 0
  | allocated (len : UInt32) (gather : Gather len.toNat) (sent : Bool)

structure Client where
  heap : Heap UInt8
  -- what has been passed to `camkes_virtqueue_driver_scatter_send_buffer`
  writes : List (List UInt8)
  -- how often `write_virtqueue.notify` has been called
  notified : ℕ

/-- It fails where `write_data` cannot be read. -/
def writeOutput (s : Client) (writeData : ℕ) (writeDataSize : ℕ) (sent : Bool) : Option Client := do
  let block ← s.heap.read writeData
  if writeDataSize ≤ block.length then
    let writes := s.writes ++ [block.take writeDataSize]
    if sent then some { s with writes, notified := s.notified + 1 } else some { s with writes }
  else none

/-- It fails where it uses a buffer that has been freed. -/
def handleReadCallback (s : Client) : Completion → Option Client
  | .dequeueFailed => some s
  | .noMemory _ => some s
  | .allocated len gather sent => do
    let (heap, buf) := s.heap.alloc (List.replicate len.toNat 0)
    let heap ← heap.store buf gather.bytes
    let heap ← if gather.ok then some heap else heap.free buf
    writeOutput { s with heap } buf len.toNat sent

/-- One completion after the other. -/
def handleReadCallbacks (s : Client) (completions : List Completion) : Option Client :=
  completions.foldlM handleReadCallback s

/-! ### What the callback should do -/

/-- The data of a completion, if the gather succeeded. -/
def Completion.gathered : Completion → Option (List UInt8)
  | allocated _ (.copied bytes) _ => some bytes.toList
  | _ => none

/-- `calloc` has returned a buffer. -/
def Completion.allocates : Completion → Bool
  | allocated _ _ _ => true
  | _ => false

/-- There is a buffer, and the gather has failed. -/
def Completion.gatherFails : Completion → Bool
  | allocated _ gather _ => !gather.ok
  | _ => false

/-- The callback has written out what was gathered, if anything was, and has left no buffer. -/
structure Handled (before : Client) (c : Completion) (after : Client) : Prop where
  writes : after.writes = before.writes ++ c.gathered.toList
  live : ∀ p, after.heap.Live p ↔ before.heap.Live p

/-- Each completion is handled as it should be, and no buffer is used after it has been freed. -/
def AllHandled (s : Client) : List Completion → Prop
  | [] => True
  | c :: cs => ∃ s', handleReadCallback s c = some s' ∧ Handled s c s' ∧ AllHandled s' cs

end Camkes.Serialserver.Loopback
