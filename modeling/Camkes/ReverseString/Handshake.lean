import Camkes.Machine.Threads
import Camkes.ReverseString.Basic
import Mathlib.Data.List.FinRange

/-!
# The handshake of reversestring

Client and server share a buffer.  The client writes a string to it and sets the last byte; the
server polls that byte, reverses the string, and clears the byte; and the client polls the byte
until then.  Each access to the buffer is a step of its own, in any order between the two.
-/

namespace Camkes.ReverseString

/-- A byte of the shared buffer. -/
abbrev Cell := Fin bufSize

/-- `buffer_str`. -/
def buffer : List Cell := List.finRange bufSize

/-- `buffer_str[REVERSE_STRING_END_IDX]`. -/
def flag : Cell := ⟨endIdx, by decide⟩

/-- A program of one of the two.  Its output is what it prints. -/
abbrev Thread := Prog Cell UInt8 (List UInt8) Unit

/-- Poll the last byte until it has `p`. -/
def poll (p : UInt8 → Bool) : Thread := .await flag p none (.done ())

/-- `run` of the client, for the string `s`. -/
def client (s : List UInt8) : Thread := do
  snprintf buffer maxLen s
  printString buffer
  Prog.store buffer endIdx 1
  poll (· == 0)
  printString buffer

/-- `run` of the server. -/
def server : Thread := do
  poll (· != 0)
  serve buffer
  Prog.store buffer endIdx 0

abbrev System := Threads.State Party Cell UInt8 (List UInt8) Unit

/-- The system before the first step. -/
def start (s : List UInt8) (mem : Cell → UInt8) : System where
  mem := mem
  rest := both (client s) server
  log := []

/-- Client and server on the shared buffer, in any interleaving. -/
def handshake : Machine System Party := Threads.machine fun _ => none

/-- Both have returned. -/
def Finished (s : System) : Prop := ∀ p, s.rest p = .done ()

end Camkes.ReverseString
