import Camkes.Machine.Basic
import Camkes.SecurityDemo.Crypto
import Camkes.SecurityDemo.Transmitter
import Mathlib.Data.Int.Notation

/-!
# The log file of the Transmitter

`write_pending_mmc_log` writes the pending characters to a file on the memory card, at the offset
`total_bytes_written`, and forgets them when U-Boot reports success.  A write that fails may leave
anything in the file from its offset on, and its characters are written again later, together with
those received in between.

What U-Boot does with a command comes with the event: the value it returns and, if that is negative,
what it leaves in the file.
-/

namespace Camkes.SecurityDemo

open CArray

/-! ### Writing -/

/-- The `fatwrite` command that `write_pending_mmc_log` gives to U-Boot, with the bytes found at the
address in it. -/
structure Fatwrite where
  bytes : List UInt8
  offset : UInt32
  deriving DecidableEq

/-- The file after `fatwrite`: a successful one stores its bytes at its offset, and a failed one
leaves `damage` there. -/
def fatwrite (file : List UInt8) (cmd : Fatwrite) (ret : ℤ) (damage : List UInt8) : List UInt8 :=
  if ret ≥ 0 then
    (file.rightpad cmd.offset.toNat 0).take cmd.offset.toNat ++ cmd.bytes ++
      file.drop (cmd.offset.toNat + cmd.bytes.length)
  else file.take cmd.offset.toNat ++ damage

/-- `memset(buf, 0, length)` and `length = 0`. -/
def Pending.clear {n : ℕ} (p : Pending n) : Option (Pending n) := do
  let buf ← memcpy p.buf (List.replicate p.length 0)
  some { buf, length := 0 }

/-- `write_pending_mmc_log`, where `run_uboot_command` returns `ret`: the pending buffer and
`total_bytes_written` afterwards, and the command. -/
def writePendingMmcLog (mmc : Pending mmcTxBufLen) (totalBytesWritten : UInt32) (ret : ℤ) :
    Option (Pending mmcTxBufLen × UInt32 × Fatwrite) := do
  let bytes ← slice mmc.buf 0 mmc.length
  let ubootCmd : Fatwrite := { bytes, offset := totalBytesWritten }
  if ret ≥ 0 then
    let cleared ← mmc.clear
    some (cleared, totalBytesWritten + UInt32.ofNat mmc.length, ubootCmd)
  else some (mmc, totalBytesWritten, ubootCmd)

/-! ### The machine -/

/-- One entry of a log trace. -/
inductive LogObs
  -- the character `c` is consumed while `mmc_pending_length` has this value
  | consumed (mmcPendingLength : ℕ) (c : UInt8)
  -- U-Boot returns `ret` for the command
  | fatwrite (cmd : Fatwrite) (ret : ℤ)
  deriving DecidableEq

/-- The characters that the critical section of `receive_data_from_crypto_component` reads, with the
value that `mmc_pending_length` has then. -/
def consumedIn (mmc : Pending mmcTxBufLen) : List Obs → List LogObs
  | [] => []
  | .read _ c :: accesses => .consumed mmc.length c :: consumedIn (mmc.store c) accesses
  | _ :: accesses => consumedIn mmc accesses

structure LogSystem where
  buf : DataportBuffer
  transmitter : Transmitter
  totalBytesWritten : UInt32
  -- the contents of the log file
  file : List UInt8
  trace : List LogObs

/-- `run` has tried to delete the log file. -/
def LogSystem.init (file : List UInt8) : LogSystem where
  buf := .init
  transmitter := .init
  totalBytesWritten := 0
  file
  trace := []

inductive LogEvent
  -- a character is typed
  | submit (c : UInt8)
  | receive
  -- the pending characters are sent over Ethernet
  | transmit
  -- `write_pending_mmc_log`, with what U-Boot does
  | write (ret : ℤ) (damage : List UInt8)

/-- Sending leaves nothing pending for Ethernet. -/
def LogSystem.step (s : LogSystem) : LogEvent → Option LogSystem
  | .submit c => some { s with buf := (clearTextHandleCharacter s.buf c).1 }
  | .receive =>
    let (transmitter, buf, accesses) := receiveDataFromCryptoComponent s.transmitter s.buf
    some { s with transmitter, buf, trace := s.trace ++ consumedIn s.transmitter.mmc accesses }
  | .transmit => do
    let eth ← s.transmitter.eth.clear
    some { s with transmitter := { s.transmitter with eth } }
  | .write ret damage => do
    let (mmc, totalBytesWritten, cmd) ←
      writePendingMmcLog s.transmitter.mmc s.totalBytesWritten ret
    some { s with
      transmitter := { s.transmitter with mmc }
      totalBytesWritten
      file := fatwrite s.file cmd ret damage
      trace := s.trace ++ [.fatwrite cmd ret] }

/-- The loop of `run` sends and writes only what is pending; the rest may happen at any time. -/
def logMachine : Machine LogSystem LogEvent where
  ok s
    | .submit _ => True
    | .receive => True
    | .transmit => s.transmitter.eth.length > 0
    | .write _ _ => s.transmitter.mmc.length > 0
  step := LogSystem.step

instance decidable_logMachine_ok (s : LogSystem) (e : LogEvent) : Decidable (logMachine.ok s e) :=
  match e with
  | .submit _ => inferInstanceAs (Decidable True)
  | .receive => inferInstanceAs (Decidable True)
  | .transmit => inferInstanceAs (Decidable (_ > _))
  | .write _ _ => inferInstanceAs (Decidable (_ > _))

/-! ### What the log should be -/

/-- The consumed characters, without those consumed while `mmc_pending_length` was
`MMC_TX_BUF_LEN`. -/
def logged (trace : List LogObs) : List UInt8 :=
  trace.filterMap fun
    | .consumed mmcPendingLength c => if mmcPendingLength = mmcTxBufLen then none else some c
    | .fatwrite _ _ => none

/-- The bytes that successful writes have stored. -/
def written (trace : List LogObs) : List UInt8 :=
  trace.flatMap fun
    | .consumed _ _ => []
    | .fatwrite cmd ret => if ret ≥ 0 then cmd.bytes else []

end Camkes.SecurityDemo
