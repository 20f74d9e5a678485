import Camkes.Data.CString
import Camkes.Machine.Basic
import Camkes.SecurityDemo.LogFile

/-!
# What the Transmitter sends over Ethernet

`transmit_pending_eth_buffer` copies the pending characters to the dataport that it shares with
PicoServer and calls `eth_send_send`.  PicoServer returns -1, or the number of bytes it has
accepted from the start of the dataport; the function does not look at it, and clears the pending
buffer.  The machine records the characters that are put into the buffer and those that PicoServer
accepts.
-/

namespace Camkes.SecurityDemo

open CArray

/-- `eth_send_shmem_size`. -/
def ethSendShmemSize : ℕ := 4 * 1024

/-- `transmit_pending_eth_buffer`: the pending buffer and the dataport afterwards, and the bytes in
the dataport when `eth_send_send` is called. -/
def transmitPendingEthBuffer (eth : Pending ethTxBufLen)
    (ethSendBuf : Vector UInt8 ethSendShmemSize) :
    Option (Pending ethTxBufLen × Vector UInt8 ethSendShmemSize × List UInt8) := do
  let src ← slice eth.buf 0 eth.length
  let ethSendBuf ← memcpy ethSendBuf (CString.strncpy src)
  let sent ← slice ethSendBuf 0 eth.length
  -- all pending characters have now been sent
  let ethSendBuf ← memcpy ethSendBuf (List.replicate eth.length 0)
  let eth ← eth.clear
  some (eth, ethSendBuf, sent)

/-! ### The machine -/

structure EthSystem where
  eth : Pending ethTxBufLen
  ethSendBuf : Vector UInt8 ethSendShmemSize
  -- the characters put into `eth_pending_tx_buf`
  put : List UInt8
  -- the characters that PicoServer has accepted
  accepted : List UInt8

def EthSystem.init : EthSystem where
  eth := { buf := Vector.replicate ethTxBufLen 0, length := 0 }
  ethSendBuf := Vector.replicate ethSendShmemSize 0
  put := []
  accepted := []

inductive EthEvent
  -- an encrypted character is received
  | store (c : UInt8)
  -- `transmit_pending_eth_buffer`, where `eth_send_send` returns `result`
  | transmit (result : ℤ)
  deriving DecidableEq

def EthSystem.step (s : EthSystem) : EthEvent → Option EthSystem
  | .store c =>
    some { s with
      eth := s.eth.store c
      put := if s.eth.length < ethTxBufLen then s.put ++ [c] else s.put }
  | .transmit result => do
    let (eth, ethSendBuf, sent) ← transmitPendingEthBuffer s.eth s.ethSendBuf
    some { s with eth, ethSendBuf, accepted := s.accepted ++ sent.take result.toNat }

/-- PicoServer fails, or accepts some of the bytes that it is given. -/
def ethMachine : Machine EthSystem EthEvent where
  ok s
    | .store _ => True
    | .transmit result => result = -1 ∨ 0 ≤ result ∧ result ≤ s.eth.length
  step := EthSystem.step

instance decidable_ethMachine_ok (s : EthSystem) (e : EthEvent) : Decidable (ethMachine.ok s e) :=
  match e with
  | .store _ => inferInstanceAs (Decidable True)
  | .transmit _ => inferInstanceAs (Decidable (_ ∨ _))

end Camkes.SecurityDemo
