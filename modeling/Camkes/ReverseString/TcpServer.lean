import Camkes.Data.CArray
import Camkes.Machine.Threads
import Camkes.ReverseString.Basic
import Mathlib.Data.List.FinRange

/-!
# The TCP server of rumprun_ethernet

`tcp_server.c` receives a chunk, formats it into the buffer that it shares with the `reverse_string`
server, signals that server and waits for its signal, and sends as many bytes from the buffer as it
has received.  The two signals are binary semaphores.
-/

namespace Camkes.ReverseString.TcpServer

open CArray

/-- A byte of the shared buffer, or a semaphore. -/
inductive Cell
  | byte (i : Fin bufSize)
  -- from the TCP server to `reverse_string`
  | ev
  -- from `reverse_string` to the TCP server
  | ev1
  deriving DecidableEq

/-- `buffer_str`. -/
def bufferStr : List Cell := (List.finRange bufSize).map .byte

/-- A program of one of the two components.  The output of the TCP server is what it sends. -/
abbrev Thread := Prog Cell UInt8 (List UInt8) Unit

/-- The emission of an event. -/
def emit (event : Cell) : Thread := .write event 1 (.done ())

/-- The wait for an event, which takes it. -/
def wait (event : Cell) : Thread := .await event (· != 0) (some 0) (.done ())

/-! ### The message loop -/

/-- `buf`. -/
abbrev Buf := Vector UInt8 bufSize

/-- What `recv` returns, when it returns more than 0. -/
structure Chunk where
  bytes : List UInt8
  ne_nil : bytes ≠ []
  length_le : bytes.length ≤ bufSize

/-- `'%'`. -/
def percent : UInt8 := 37

/-- A format string and no arguments.  There is no argument for a conversion but `%%`, which makes
the behaviour undefined. -/
def format : List UInt8 → Option (List UInt8)
  | [] => some []
  | [c] => if c = percent then none else some [c]
  | c :: d :: fmt =>
    if c = percent then
      if d = percent then (format fmt).map (percent :: ·) else none
    else (format (d :: fmt)).map (c :: ·)

/-- `recv(client_fd, buf, …)`, `buf[read] = 0`, and `buf` as a format string: what `buf` is then,
and the formatted string. -/
def prepare (buf : Buf) (bytes : List UInt8) : Option (Buf × List UInt8) := do
  let buf ← memcpy buf bytes
  let buf ← store buf bytes.length 0
  let fmt ← CString.read buf.toList
  let s ← format fmt
  some (buf, s)

/-- The rest of a round, where `s` is the formatted string. -/
def exchange (read : ℕ) (s : List UInt8) : Thread := do
  snprintf bufferStr (read + 1) s
  emit .ev
  wait .ev1
  let reply ← Prog.readBytes bufferStr read
  .output reply (.done ())

/-- The message loop for these chunks, until `recv` returns 0. -/
def messageLoop (buf : Buf) : List Chunk → Thread
  | [] => .done ()
  | chunk :: chunks =>
    match prepare buf chunk.bytes with
    | none => .fault
    | some (buf, s) => do
      exchange chunk.bytes.length s
      messageLoop buf chunks

/-- A round of the loop of the `reverse_string` server. -/
def serverRound : Thread := do
  wait .ev
  serve bufferStr
  emit .ev1

/-! ### The system -/

/-- The TCP server is the client of the `reverse_string` server. -/
abbrev System := Threads.State Party Cell UInt8 (List UInt8) Unit

/-- The `reverse_string` server goes on forever. -/
def loop : Party → Option Thread
  | .client => none
  | .server => some serverRound

/-- A connection on which these chunks are received. -/
def start (buf : Buf) (mem : Cell → UInt8) (chunks : List Chunk) : System where
  mem := mem
  rest := both (messageLoop buf chunks) serverRound
  log := []

def machine : Machine System Party := Threads.machine loop

abbrev Log := List (Party × Access Cell UInt8 (List UInt8))

/-- What the TCP server has sent. -/
def sent (log : Log) : List (List UInt8) :=
  log.filterMap fun e => if e.1 = .client then e.2.output? else none

end Camkes.ReverseString.TcpServer
