import Camkes.PicotcpSingle.TcpEcho

/-!
# The TCP echo server when sends fail

The server goes on after an error of `pico_socket_recv` or `pico_socket_send`.  On a write event it
keeps what it could not send.  On a read event it receives the next data into the packet buffer,
over what it could not send.  `callInOrder` says that nothing is sent on a connection after that.
-/

namespace Camkes.PicotcpSingle.TcpEcho

open CArray

/-! ### The machine -/

/-- Expected events come in any order, and any call to the stack can fail. -/
def errorMachine : Machine System Call where
  ok s c := expected s.server c
  step := System.step

instance decidable_errorMachine_ok (s : System) (c : Call) : Decidable (errorMachine.ok s c) :=
  inferInstanceAs (Decidable (expected s.server c = true))

/-! ### Bytes that are lost -/

/-- How a loop of sends ends. -/
inductive SendEnd
  | complete
  -- `pico_socket_send` returns 0
  | blocked
  -- it returns -1
  | failed
  deriving DecidableEq

/-- How sending `len` bytes ends. -/
def sendEnd (len : ℕ) : List Send → SendEnd
  | [] => if len > 0 then .blocked else .complete
  | send :: sends =>
    if len > 0 then
      match send with
      | .error => .failed
      | .sent n => if n = 0 then .blocked else sendEnd (len - n) sends
    else .complete

/-- The first send takes bytes. -/
def takesBytes : List Send → Bool
  | .sent n :: _ => n > 0
  | _ => false

/-- `lost` says whether bytes received before have been lost.  No send takes bytes after such a
loss. -/
def roundsInOrder (lost : Bool) : List Round → Bool
  | [] => true
  | round :: rounds =>
    match round.recv with
    | .error => true
    | .data bytes =>
      let bytes := bytes.take tcpReadSize
      if bytes.length = 0 then true
      else !(lost && takesBytes round.sends) &&
        match sendEnd bytes.length round.sends with
        | .complete => roundsInOrder lost rounds
        | .blocked => true
        | .failed => roundsInOrder true rounds

/-- No send of these rounds fails. -/
def roundsSucceed : List Round → Bool
  | [] => true
  | round :: rounds =>
    match round.recv with
    | .error => true
    | .data bytes =>
      let bytes := bytes.take tcpReadSize
      if bytes.length = 0 then true
      else
        match sendEnd bytes.length round.sends with
        | .complete => roundsSucceed rounds
        | .blocked => true
        | .failed => false

instance decidable_echoes (slot : Slot) (c : Conn) : Decidable (slot.Echoes c) :=
  decidable_of_iff
    (if slot.writePending then
      (slice slot.dataPacket slot.sentPayload slot.remainingPayload).any fun rest =>
        c.received = c.sent ++ rest
    else c.sent = c.received) <| by
    unfold Slot.Echoes
    split_ifs
    · simp [Option.any_eq_true]
    · exact decide_eq_true_iff

/-- The call takes no bytes of the slot after a loss. -/
def slotInOrder (slot : Slot) (lost : Bool) (c : Call) : Bool :=
  if slot.writePending then
    !c.events.wr || !(lost && takesBytes c.flush) &&
      (sendEnd slot.remainingPayload c.flush ≠ .complete || roundsInOrder lost c.rounds)
  else !c.events.rd || roundsInOrder lost c.rounds

/-- In this call `pico_socket_send` takes no bytes of an open connection after a send of received
data has failed on it, in this call or before. -/
def callInOrder (s : System) (c : Call) : Bool :=
  match findClient s.server c.socket with
  | none => true
  | some i =>
    let slot := s.server.slots.get i
    slotInOrder slot (!decide (slot.Echoes (connOf c.socket s.trace))) c

end Camkes.PicotcpSingle.TcpEcho
