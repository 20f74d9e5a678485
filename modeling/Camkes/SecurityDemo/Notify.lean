import Camkes.Machine.Basic
import Camkes.SecurityDemo.Crypto
import Camkes.SecurityDemo.Transmitter

/-!
# Waking the Transmitter

`clear_text_handle_character` emits `circular_buffer_notify` after its critical section, and the
loop of the Transmitter enters its critical section after a poll that finds the notification set.
The notification is binary: it says that there has been an emit since the last successful poll, not
how many.  The sections, the emits and the polls of the two components come in any order.
-/

namespace Camkes.SecurityDemo

/-- Where Crypto is in `clear_text_handle_character`. -/
inductive CryptoAt
  | idle
  -- after the critical section
  | beforeEmit
  deriving DecidableEq

/-- Where the Transmitter is in the loop of `run`. -/
inductive TransmitterAt
  | beforePoll
  -- after a poll that found the notification set
  | beforeReceive
  deriving DecidableEq

structure NotifySystem where
  buf : DataportBuffer
  transmitter : Transmitter
  -- `circular_buffer_notify`
  notify : Bool
  cryptoAt : CryptoAt
  transmitterAt : TransmitterAt

def NotifySystem.init : NotifySystem where
  buf := .init
  transmitter := .init
  notify := false
  cryptoAt := .idle
  transmitterAt := .beforePoll

inductive NotifyEvent
  -- the critical section of `clear_text_handle_character`
  | submit (c : UInt8)
  -- `circular_buffer_notify_emit`
  | emit
  -- `circular_buffer_notify_poll`
  | poll
  -- the critical section of `receive_data_from_crypto_component`
  | receive
  deriving DecidableEq

def NotifySystem.step (s : NotifySystem) : NotifyEvent → Option NotifySystem
  | .submit c =>
    some { s with buf := (clearTextHandleCharacter s.buf c).1, cryptoAt := .beforeEmit }
  | .emit => some { s with notify := true, cryptoAt := .idle }
  | .poll =>
    if s.notify then some { s with notify := false, transmitterAt := .beforeReceive } else some s
  | .receive =>
    let (transmitter, buf, _) := receiveDataFromCryptoComponent s.transmitter s.buf
    some { s with transmitter, buf, transmitterAt := .beforePoll }

/-- Each component takes its steps in order. -/
def notifyMachine : Machine NotifySystem NotifyEvent where
  ok s
    | .submit _ => s.cryptoAt = .idle
    | .emit => s.cryptoAt = .beforeEmit
    | .poll => s.transmitterAt = .beforePoll
    | .receive => s.transmitterAt = .beforeReceive
  step := NotifySystem.step

instance decidable_notifyMachine_ok (s : NotifySystem) (e : NotifyEvent) :
    Decidable (notifyMachine.ok s e) :=
  match e with
  | .submit _ => inferInstanceAs (Decidable (_ = _))
  | .emit => inferInstanceAs (Decidable (_ = _))
  | .poll => inferInstanceAs (Decidable (_ = _))
  | .receive => inferInstanceAs (Decidable (_ = _))

/-- Someone is on the way to empty the buffer. -/
def NotifySystem.Attended (s : NotifySystem) : Prop :=
  s.notify = true ∨ s.cryptoAt = .beforeEmit ∨ s.transmitterAt = .beforeReceive

end Camkes.SecurityDemo
