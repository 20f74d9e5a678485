import Camkes.Data.BoundedFifo
import Camkes.Data.History
import Camkes.Machine.Basic
import Camkes.SecurityDemo.Crypto
import Camkes.SecurityDemo.Transmitter

/-!
# The two components on their dataport

The critical sections of the two components come in any order.  The trace of a run lists the
characters that were submitted and every access to `data`; what it should be is said here in terms
of the trace alone (`fifoOf`, `SlotsSafe`).
-/

namespace Camkes.SecurityDemo

structure System where
  buf : DataportBuffer
  transmitter : Transmitter
  trace : List Obs

inductive Event
  -- a character is typed
  | submit (c : UInt8)
  | receive

def System.init : System where
  buf := .init
  transmitter := .init
  trace := []

/-- One critical section. -/
def System.step (s : System) : Event → Option System
  | .submit c =>
    let (buf, accesses) := clearTextHandleCharacter s.buf c
    some { s with buf, trace := s.trace ++ .submitted c :: accesses }
  | .receive =>
    let (transmitter, buf, accesses) := receiveDataFromCryptoComponent s.transmitter s.buf
    some { transmitter, buf, trace := s.trace ++ accesses }

/-- Everything may happen at any time. -/
def machine : Machine System Event where
  ok _ _ := True
  step := System.step

instance (s : System) (e : Event) : Decidable (machine.ok s e) := inferInstanceAs (Decidable True)

/-! ### What a trace should be -/

/-- The letter `base + k` of an alphabet that starts at `base` becomes `base + (k + 13) % 26`. -/
def rotated (base c : ℕ) : ℕ := base + (c - base + 13) % 26

/-- Letters are moved by 13 places in their alphabet, and other characters are left alone. -/
def encrypted (c : UInt8) : UInt8 :=
  if 65 ≤ c.toNat ∧ c.toNat ≤ 90 then UInt8.ofNat (rotated 65 c.toNat)
  else if 97 ≤ c.toNat ∧ c.toNat ≤ 122 then UInt8.ofNat (rotated 97 c.toNat)
  else c

/-- The queue that the trace asks for: encrypted characters are offered, and read ones are taken. -/
def fifoStep (q : BoundedFifo UInt8 255) : Obs → BoundedFifo UInt8 255
  | .submitted c => q.offer (encrypted c)
  | .wrote _ => q
  | .read _ _ => q.take

def fifoOf (trace : List Obs) : BoundedFifo UInt8 255 := trace.foldl fifoStep .empty

/-- The characters that were removed from the buffer. -/
def removed (trace : List Obs) : List UInt8 :=
  trace.filterMap fun
    | .read _ c => some c
    | _ => none

/-- Slot `i` has been written, and it has not been read since. -/
def unread (i : UInt8) (trace : List Obs) : Bool :=
  trace.foldl (fun u o => match o with
    | .submitted _ => u
    | .wrote j => if j = i then true else u
    | .read j _ => if j = i then false else u) false

/-- No unread slot is overwritten, and only unread slots are read. -/
def SlotsSafe (trace : List Obs) : Prop :=
  Along (fun before o => match o with
    | .submitted _ => True
    | .wrote i => unread i before = false
    | .read i _ => unread i before = true) trace

end Camkes.SecurityDemo
