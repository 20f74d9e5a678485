import Camkes.SecurityDemo.Equiv.LogFile
import Camkes.SecurityDemo.UbootCmd

/-!
# The `fatwrite` command fits

Its text has 41 characters and the digits of three numbers (`exists_fatwriteText`).  The length that
is written has at most four digits and the other numbers have at most eight, which leaves two of the
64 characters unused.
-/

namespace Camkes.SecurityDemo

open Printf

variable {address mmcPendingLength totalBytesWritten : UInt32}

/-- The length of the text. -/
theorem exists_fatwriteText (address mmcPendingLength totalBytesWritten : UInt32) :
    ∃ text, format fatwriteFormat.toList
        (fatwriteArgs address mmcPendingLength totalBytesWritten) = some text ∧
      text.length = 41 + (hex address).length + (hex mmcPendingLength).length +
        (hex totalBytesWritten).length := by
  obtain ⟨text, htext⟩ : ∃ text, format fatwriteFormat.toList
      (fatwriteArgs address mmcPendingLength totalBytesWritten) = some text := ⟨_, rfl⟩
  refine ⟨text, htext, ?_⟩
  have hlen := length_format htext
  have hformat : fatwriteFormat.toList.length = 25 := by decide
  have hdevice : logFileDevice.toList.length = 7 := by decide
  have hfilename : logFilename.toList.length = 19 := by decide
  simp only [fatwriteArgs, List.length_cons, List.length_nil, List.map_cons, List.map_nil,
    List.sum_cons, List.sum_nil, Arg.text] at hlen
  omega

example : format fatwriteFormat.toList (fatwriteArgs 0x41a0 16 255) =
    some "fatwrite mmc 0:2 0x41a0 transmitter_log.txt 10 ff".toList := by decide

/-- The text of the command and its NUL fit into `uboot_cmd`. -/
theorem exists_fatwriteText_le (address totalBytesWritten : UInt32)
    (h : mmcPendingLength.toNat ≤ mmcTxBufLen) :
    ∃ text, format fatwriteFormat.toList
        (fatwriteArgs address mmcPendingLength totalBytesWritten) = some text ∧
      text.length + 1 ≤ 62 := by
  obtain ⟨text, htext, hlen⟩ := exists_fatwriteText address mmcPendingLength totalBytesWritten
  have haddress := length_hex_le address
  have hpending : (hex mmcPendingLength).length ≤ 4 := by
    rw [length_hex_le_iff _ (by decide)]
    exact Nat.lt_of_le_of_lt h (by decide)
  have htotal := length_hex_le totalBytesWritten
  exact ⟨text, htext, by omega⟩

/-- **The command fits** into `uboot_cmd` with its NUL, so that printing it stores nothing behind
the array. -/
theorem printUbootCmd_spec (ubootCmd : Vector Char ubootCmdSize)
    (address mmcPendingLength totalBytesWritten : UInt32)
    (h : mmcPendingLength.toNat ≤ mmcTxBufLen) :
    ∃ text ubootCmd', format fatwriteFormat.toList
        (fatwriteArgs address mmcPendingLength totalBytesWritten) = some text ∧
      text.length + 1 ≤ ubootCmdSize ∧
      printUbootCmd ubootCmd address mmcPendingLength totalBytesWritten = some ubootCmd' ∧
      CArray.slice ubootCmd' 0 (text.length + 1) = some (text ++ [nul]) := by
  obtain ⟨text, htext, hlen⟩ := exists_fatwriteText_le address totalBytesWritten h
  have hfits : text.length < ubootCmdSize := Nat.lt_of_lt_of_le hlen (by decide)
  obtain ⟨ubootCmd', hprint, hslice⟩ := exists_sprintf ubootCmd htext hfits
  exact ⟨text, ubootCmd', htext, hfits, hprint, hslice⟩

/-- A full buffer, and as much written as can be counted. -/
theorem printUbootCmd_full : ∃ text ubootCmd', format fatwriteFormat.toList
      (fatwriteArgs 0xffffffff 4096 0xffffffff) = some text ∧
    text.length + 1 ≤ ubootCmdSize ∧
    printUbootCmd (Vector.replicate _ nul) 0xffffffff 4096 0xffffffff = some ubootCmd' ∧
    CArray.slice ubootCmd' 0 (text.length + 1) = some (text ++ [nul]) :=
  printUbootCmd_spec _ _ _ _ (by decide)

/-- In no run of the Transmitter does the command overflow its buffer. -/
theorem exists_printUbootCmd_of_run (file : List UInt8)
    {ts : List (Transition LogSystem LogEvent)} {s : LogSystem}
    (hrun : logMachine.Run (.init file) ts s) (ubootCmd : Vector Char ubootCmdSize)
    (address : UInt32) :
    ∃ ubootCmd', printUbootCmd ubootCmd address (UInt32.ofNat s.transmitter.mmc.length)
      s.totalBytesWritten = some ubootCmd' := by
  have hle := (preserves_logInv.run (logInv_init file) hrun).mmc_le
  have hpending : (UInt32.ofNat s.transmitter.mmc.length).toNat ≤ mmcTxBufLen := by
    rw [UInt32.toNat_ofNat']
    exact Nat.le_trans (Nat.mod_le _ _) hle
  obtain ⟨text, htext, hlen⟩ := exists_fatwriteText_le address s.totalBytesWritten hpending
  obtain ⟨ubootCmd', hprint, -⟩ := exists_sprintf (n := ubootCmdSize) ubootCmd htext
    (Nat.lt_of_lt_of_le hlen (by decide))
  exact ⟨ubootCmd', hprint⟩

end Camkes.SecurityDemo
