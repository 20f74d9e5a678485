import Camkes.Data.CArray
import Camkes.Data.Ring
import Camkes.Machine.Basic

/-!
# The getchar clients of the serial server

`polling-client.c` and `interrupt-client.c` have the same loop: they read characters from a cyclic
buffer that they share with the serial server, and print them line by line.  A client that finds the
buffer empty first waits for a notification, by polling it in the one and by blocking on it in the
other.

The serial server stores a character, advances `tail`, and then signals the notification, which is
binary.  Each access of either side to what they share is a step of its own.
-/

namespace Camkes.Serialserver

open CArray

/-- Which of the two clients. -/
inductive Kind
  | polling
  | interrupt
  deriving DecidableEq

/-- `CLIENT_BUF`. -/
def clientBuf : ℕ := 20

/-- `GETCHAR_BUF` of the polling client, `SERIAL_BUF` of the interrupt client. -/
def getcharBuf : ℕ := 0x1000 - 8

instance fact_getcharBuf_pos : Fact (0 < getcharBuf) := ⟨by decide⟩

/-- Where a client is in its inner loop. -/
inductive ClientAt
  -- before the comparison of `head` with `tail`
  | test
  -- at `seL4_Poll` or `seL4_Wait`
  | waiting
  -- before it reads `buf[head]`
  | reading
  -- before it advances `head`
  | advancing
  deriving DecidableEq

/-- Where the server is with a character. -/
inductive ServerAt
  | idle
  -- it has stored the character
  | stored (c : UInt8)
  -- it has advanced `tail`
  | advanced
  deriving DecidableEq

structure System where
  -- the shared buffer
  head : ℕ
  tail : ℕ
  buf : Vector UInt8 getcharBuf
  -- the notification is set
  notification : Bool
  serverAt : ServerAt
  clientAt : ClientAt
  -- the line buffer of the client and its `i`
  line : Vector UInt8 clientBuf
  i : ℕ
  -- the lines printed
  printed : List (List UInt8)
  -- all characters stored and all characters read, in order
  stored : List UInt8
  chars : List UInt8

def System.init : System where
  head := 0
  tail := 0
  buf := Vector.replicate getcharBuf 0
  notification := false
  serverAt := .idle
  clientAt := .test
  line := Vector.replicate clientBuf 0
  i := 0
  printed := []
  stored := []
  chars := []

inductive Event
  -- the server stores a character, advances `tail`, signals
  | store (c : UInt8)
  | advance
  | signal
  -- the next step of the client
  | client
  deriving DecidableEq

/-! ### The client -/

/-- The end of a line, with `buf[i] = 0` and the `printf`. -/
def System.endLine (s : System) (i : ℕ) : Option System := do
  let line ← store s.line i 0
  some { s with line, i := 0, printed := s.printed ++ [line.toList.takeWhile (· ≠ 0)] }

/-- `head` is advanced, and the condition of the loop decides. -/
def System.advanceHead (s : System) : Option System := do
  let s := { s with head := (s.head + 1) % getcharBuf, clientAt := .test }
  let c ← s.line[s.i]?
  if c ≠ 13 then
    if s.i + 1 < clientBuf - 1 then some { s with i := s.i + 1 } else s.endLine (s.i + 1)
  else s.endLine s.i

/-- One step of the loop of `run`. -/
def System.stepClient (s : System) : Option System :=
  match s.clientAt with
  | .test => some { s with clientAt := if s.head = s.tail then .waiting else .reading }
  | .waiting =>
    if s.notification then some { s with notification := false, clientAt := .reading } else some s
  | .reading => do
    let c ← s.buf[s.head]?
    let line ← store s.line s.i c
    some { s with line, chars := s.chars ++ [c], clientAt := .advancing }
  | .advancing => s.advanceHead

/-! ### The machine -/

def System.step (s : System) : Event → Option System
  | .store c => do
    let buf ← CArray.store s.buf s.tail c
    some { s with buf, stored := s.stored ++ [c], serverAt := .stored c }
  | .advance => some { s with tail := (s.tail + 1) % getcharBuf, serverAt := .advanced }
  | .signal => some { s with notification := true, serverAt := .idle }
  | .client => s.stepClient

/-- The server takes its steps in order and does not fill the buffer.  `seL4_Wait` is a step only if
the notification is set. -/
def machine (kind : Kind) : Machine System Event where
  ok s
    | .store _ => s.serverAt = .idle ∧ (s.tail + 1) % getcharBuf ≠ s.head
    | .advance => ∃ c, s.serverAt = .stored c
    | .signal => s.serverAt = .advanced
    | .client => kind = .interrupt → s.clientAt = .waiting → s.notification = true
  step := System.step

instance decidable_machine_ok (kind : Kind) (s : System) (e : Event) :
    Decidable ((machine kind).ok s e) :=
  match e with
  | .store _ => inferInstanceAs (Decidable (_ ∧ _))
  | .advance =>
    match h : s.serverAt with
    | .idle => .isFalse fun ⟨c, hc⟩ => by rw [h] at hc; cases hc
    | .stored c => .isTrue ⟨c, h⟩
    | .advanced => .isFalse fun ⟨c, hc⟩ => by rw [h] at hc; cases hc
  | .signal => inferInstanceAs (Decidable (_ = _))
  | .client => inferInstanceAs (Decidable (_ → _))

/-! ### What a client should read -/

/-- The characters between `head` and `tail`, oldest first. -/
def System.contents (s : System) : List UInt8 := Ring.contents s.buf s.tail s.head

/-- The character that is stored behind `tail`. -/
def ServerAt.inFlight : ServerAt → List UInt8
  | .stored c => [c]
  | _ => []

/-- What is left to read of the buffer and of the character behind it; a client that is about to
advance `head` has read the first. -/
def ClientAt.unread (clientAt : ClientAt) (contents inFlight : List UInt8) : List UInt8 :=
  (if clientAt = .advancing then contents.tail else contents) ++ inFlight

/-- The characters stored and not read, oldest first. -/
def System.unread (s : System) : List UInt8 := s.clientAt.unread s.contents s.serverAt.inFlight

/-- The client has read the characters stored, in order, each once, and it is not about to read a
slot or to advance `head` while `head == tail`. -/
def System.ReadsExactly (s : System) : Prop :=
  s.chars ++ s.unread = s.stored ∧
    (s.clientAt = .reading ∨ s.clientAt = .advancing → s.head ≠ s.tail)

/-- A wait that returns finds the buffer not empty. -/
def waitsForCharacter (s : System) (e : Event) : Prop :=
  e = .client → s.clientAt = .waiting → s.notification = true → s.head ≠ s.tail

instance decidable_waitsForCharacter (s : System) (e : Event) :
    Decidable (waitsForCharacter s e) :=
  inferInstanceAs (Decidable (_ → _ → _ → _))

end Camkes.Serialserver
