import Camkes.Data.Printf
import Camkes.SecurityDemo.Transmitter

/-!
# The text of the `fatwrite` command

`write_pending_mmc_log` prints its command into `uboot_cmd`, a local array of characters.
-/

namespace Camkes.SecurityDemo

/-- `LOG_FILENAME`. -/
def logFilename : String := "transmitter_log.txt"

/-- `LOG_FILE_DEVICE`. -/
def logFileDevice : String := "mmc 0:2"

/-- `sizeof(uboot_cmd)`. -/
def ubootCmdSize : ℕ := 64

/-- The format string of the command. -/
def fatwriteFormat : String := "fatwrite %s 0x%x %s %x %x"

/-- Its arguments, where `address` is that of `mmc_pending_tx_buf`. -/
def fatwriteArgs (address mmcPendingLength totalBytesWritten : UInt32) : List Printf.Arg :=
  [.s logFileDevice.toList, .x address, .s logFilename.toList, .x mmcPendingLength,
    .x totalBytesWritten]

/-- The `sprintf` in `write_pending_mmc_log`: what is in `uboot_cmd` afterwards. -/
def printUbootCmd (ubootCmd : Vector Char ubootCmdSize)
    (address mmcPendingLength totalBytesWritten : UInt32) : Option (Vector Char ubootCmdSize) :=
  Printf.sprintf ubootCmd fatwriteFormat.toList
    (fatwriteArgs address mmcPendingLength totalBytesWritten)

end Camkes.SecurityDemo
