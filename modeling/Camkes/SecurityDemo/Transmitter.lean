import Camkes.SecurityDemo.Dataport

/-!
# The Transmitter component of the security demo
-/

namespace Camkes.SecurityDemo

/-- `ETH_TX_BUF_LEN`. -/
def ethTxBufLen : ℕ := 4096

/-- `MMC_TX_BUF_LEN`. -/
def mmcTxBufLen : ℕ := 4096

/-- A buffer of pending characters: `eth_pending_tx_buf` with `eth_pending_length`, or
`mmc_pending_tx_buf` with `mmc_pending_length`. -/
structure Pending (n : ℕ) where
  buf : Vector UInt8 n
  length : ℕ

/-- The static variables of the Transmitter that receiving changes. -/
structure Transmitter where
  eth : Pending ethTxBufLen
  mmc : Pending mmcTxBufLen

def Transmitter.init : Transmitter where
  eth := { buf := Vector.replicate ethTxBufLen 0, length := 0 }
  mmc := { buf := Vector.replicate mmcTxBufLen 0, length := 0 }

/-- If the buffer is full then the character is discarded. -/
def Pending.store {n : ℕ} (p : Pending n) (c : UInt8) : Pending n :=
  if h : p.length < n then { buf := p.buf.set p.length c h, length := p.length + 1 } else p

/-- The loop in the critical section of `receive_data_from_crypto_component`. -/
def receiveLoop (t : Transmitter) (buf : DataportBuffer) :
    Transmitter × DataportBuffer × List Obs :=
  if buf.head = buf.tail then (t, buf, [])
  else
    let encryptedChar := buf.data.get (slot buf.tail)
    let r := receiveLoop
      { eth := t.eth.store encryptedChar, mmc := t.mmc.store encryptedChar }
      { buf with tail := buf.tail + 1 }
    (r.1, r.2.1, .read buf.tail encryptedChar :: r.2.2)
termination_by (buf.head - buf.tail).toNat
decreasing_by
  rename_i hempty
  have hne : buf.head.toNat ≠ buf.tail.toNat := fun he => hempty (UInt8.toNat_inj.mp he)
  have hhead := buf.head.toNat_lt
  have htail := buf.tail.toNat_lt
  simp only [UInt8.toNat_sub, UInt8.toNat_add, UInt8.toNat_one]
  omega

/-- The critical section of `receive_data_from_crypto_component`. -/
def receiveDataFromCryptoComponent (t : Transmitter) (buf : DataportBuffer) :
    Transmitter × DataportBuffer × List Obs :=
  receiveLoop t buf

end Camkes.SecurityDemo
