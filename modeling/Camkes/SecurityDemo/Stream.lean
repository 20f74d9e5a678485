import Camkes.Data.History
import Camkes.SecurityDemo.EthSend

/-!
# One character, two ways out

`receive_data_from_crypto_component` stores each character in two buffers.  One is copied to the
dataport of PicoServer as a C string, and U-Boot reads the other one at its address.  The machine
here is the one of the log file with the dataport in it, and its trace lists the consumed characters
and what is in the dataport at each call of `eth_send_send`.
-/

namespace Camkes.SecurityDemo

/-- One entry of a trace. -/
inductive StreamObs
  -- the character `c` is consumed while the two lengths have these values
  | consumed (ethPendingLength mmcPendingLength : ℕ) (c : UInt8)
  -- `eth_send_send` is called, with these bytes in `eth_send_buf`
  | sent (bytes : List UInt8)
  deriving DecidableEq

/-- The characters that the critical section of `receive_data_from_crypto_component` reads, with the
values that the two lengths have then. -/
def consumedWith (t : Transmitter) : List Obs → List StreamObs
  | [] => []
  | .read _ c :: accesses =>
    .consumed t.eth.length t.mmc.length c ::
      consumedWith { eth := t.eth.store c, mmc := t.mmc.store c } accesses
  | _ :: accesses => consumedWith t accesses

structure StreamSystem where
  log : LogSystem
  ethSendBuf : Vector UInt8 ethSendShmemSize
  trace : List StreamObs

def StreamSystem.init (file : List UInt8) : StreamSystem where
  log := .init file
  ethSendBuf := Vector.replicate ethSendShmemSize 0
  trace := []

def StreamSystem.step (s : StreamSystem) : LogEvent → Option StreamSystem
  | .submit c => do
    let log ← s.log.step (.submit c)
    some { s with log }
  | .receive => do
    let accesses := (receiveDataFromCryptoComponent s.log.transmitter s.log.buf).2.2
    let log ← s.log.step .receive
    some { s with log, trace := s.trace ++ consumedWith s.log.transmitter accesses }
  | .transmit => do
    let (eth, ethSendBuf, bytes) ← transmitPendingEthBuffer s.log.transmitter.eth s.ethSendBuf
    some {
      log := { s.log with transmitter := { s.log.transmitter with eth } }
      ethSendBuf
      trace := s.trace ++ [.sent bytes] }
  | .write ret damage => do
    let log ← s.log.step (.write ret damage)
    some { s with log }

/-- The loop of `run` sends and writes only what is pending. -/
def streamMachine : Machine StreamSystem LogEvent where
  ok s e := logMachine.ok s.log e
  step := StreamSystem.step

instance decidable_streamMachine_ok (s : StreamSystem) (e : LogEvent) :
    Decidable (streamMachine.ok s e) :=
  decidable_logMachine_ok s.log e

/-! ### What the two streams should be -/

/-- The characters collected in `eth_pending_tx_buf` since the last call of `eth_send_send`. -/
def collected (trace : List StreamObs) : List UInt8 :=
  trace.foldl (fun cs o => match o with
    | .consumed ethPendingLength _ c => if ethPendingLength = ethTxBufLen then cs else cs ++ [c]
    | .sent _ => []) []

/-- Each call finds the characters collected for it in the dataport. -/
def SendsCollected (trace : List StreamObs) : Prop :=
  Along (fun before o => match o with
    | .consumed _ _ _ => True
    | .sent bytes => bytes = collected before) trace

/-- The bytes given to PicoServer. -/
def ethStream (trace : List StreamObs) : List UInt8 :=
  trace.flatMap fun
    | .consumed _ _ _ => []
    | .sent bytes => bytes

/-- No character has found one of the two buffers full. -/
def NoneDiscarded (trace : List StreamObs) : Prop :=
  ∀ ethPendingLength mmcPendingLength c,
    StreamObs.consumed ethPendingLength mmcPendingLength c ∈ trace →
      ethPendingLength ≠ ethTxBufLen ∧ mmcPendingLength ≠ mmcTxBufLen

/-- What has been sent and what is still to be sent are the bytes that have been logged and those
still to be logged; and they are in the file. -/
def SameBytes (s : StreamSystem) : Prop :=
  ethStream s.trace ++ s.log.transmitter.eth.buf.toList.take s.log.transmitter.eth.length =
      written s.log.trace ++ s.log.transmitter.mmc.buf.toList.take s.log.transmitter.mmc.length ∧
    ((written s.log.trace).length < UInt32.size →
      s.log.file.take (written s.log.trace).length = written s.log.trace)

/-- What was collected is sent, and the two streams agree unless a character has been discarded. -/
def SendsTyped (s : StreamSystem) : Prop :=
  SendsCollected s.trace ∧ (NoneDiscarded s.trace → SameBytes s)

/-- Behind a NUL that is sent there is nothing but NULs. -/
def SendsText (s : StreamSystem) : LogEvent → Prop
  | .transmit =>
    CString.NulLast (s.log.transmitter.eth.buf.toList.take s.log.transmitter.eth.length)
  | _ => True

instance (s : StreamSystem) (e : LogEvent) : Decidable (SendsText s e) :=
  match e with
  | .submit _ | .receive | .write _ _ => inferInstanceAs (Decidable True)
  | .transmit => inferInstanceAs (Decidable (CString.NulLast _))

end Camkes.SecurityDemo
