import Camkes.UartCogent.Chars

/-!
# What `uart_cogent` sends and prints

Whatever the registers contain, the driver has sent as many characters of the message as it has seen
the FIFO empty, with `\r` before each `\n`, and then the client has printed the characters that have
been received, up to the first `q` (`line_and_console`).  A received character 255 cannot be told
from none.
-/

namespace Camkes.UartCogent

open Polling

/-- The characters on the line for a text. -/
def onLine (data : List UInt8) : List UInt8 :=
  data.flatMap fun c => if c = '\n'.toUInt8 then ['\r'.toUInt8, c] else [c]

/-- The characters that have been received. -/
def received (rs : List Reading) : List UInt8 :=
  rs.filterMap fun r =>
    if r.sr2 &&& uartSr2RxfifoRdr ≠ 0 ∧ r.rxd &&& uartUrxdReadyMask ≠ 0 then
      some (r.rxd &&& uartByteMask).toUInt8
    else none

/-- A character is put once the FIFO is empty, a newline after a carriage return. -/
theorem uartPutChar_eq (c : UInt8) :
    uartPutChar c = putAll txfifoEmpty (if c = '\n'.toUInt8 then ['\r'.toUInt8, c] else [c]) := by
  ext1 rs
  rw [uartPutChar]
  split_ifs
  · show _ = (put txfifoEmpty _ rs).bind (putAll txfifoEmpty [c])
    congr 1
    ext1 rs
    exact (putAll_singleton c rs).symm
  · exact (putAll_singleton c rs).symm

/-- The characters of a message, one after the other. -/
theorem uartWrite_eq (data : List UInt8) (rs : List Reading) :
    uartWrite data rs = putAll txfifoEmpty (onLine data) rs := by
  induction data generalizing rs with
  | nil => rfl
  | cons c data ih =>
    have hih : uartWrite data = putAll txfifoEmpty (onLine data) := funext ih
    have hline : onLine (c :: data) =
        (if c = '\n'.toUInt8 then ['\r'.toUInt8, c] else [c]) ++ onLine data :=
      List.flatMap_cons
    rw [uartWrite, uartPutChar_eq, hih, hline]
    exact (putAll_append _ _ rs).symm

/-- One poll: nothing, or a character. -/
theorem uartGetChar_cases (r : Reading) (rs : List Reading) :
    uartGetChar r = noChar ∧ received (r :: rs) = received rs ∨
    received (r :: rs) = uartGetChar r :: received rs := by
  rw [uartGetChar, received, List.filterMap_cons]
  split_ifs with hrdr hready hboth hboth hboth
  · exact .inr rfl
  · exact absurd ⟨hrdr, hready⟩ hboth
  · exact absurd hboth.2 hready
  · exact .inl ⟨rfl, rfl⟩
  · exact absurd hboth.1 hrdr
  · exact .inl ⟨rfl, rfl⟩

/-- What the client prints is what is received up to the first `q`. -/
theorem readLoop_eq (rs : List Reading) :
    readLoop rs =
      ((upTo 'q'.toUInt8 (received rs)).filter (· ≠ noChar),
        decide ('q'.toUInt8 ∈ received rs)) := by
  induction rs with
  | nil => rfl
  | cons r rs ih =>
    rw [readLoop]
    rcases uartGetChar_cases r rs with ⟨hnone, hrec⟩ | hrec
    · have hq : noChar ≠ 'q'.toUInt8 := by decide
      rw [hnone, hrec, if_neg hq, ih]
      rfl
    · rw [hrec, upTo_cons]
      by_cases hq : uartGetChar r = 'q'.toUInt8
      · have hne : 'q'.toUInt8 ≠ noChar := by decide
        rw [hq]
        simp [hne]
      · rw [if_neg hq, if_neg hq, ih, List.filter_cons]
        by_cases hnone : uartGetChar r = noChar
        · simp [hnone, show ¬ 'q'.toUInt8 = noChar by decide]
        · simp [hnone, Ne.symm hq]

/-- **The line and the console** -/
theorem line_and_console (rs : List Reading) :
    (run rs).sent = (onLine str).take (rs.countP txfifoEmpty) ∧
    match afterReady txfifoEmpty (onLine str).length rs with
    | none => (run rs).printed = [] ∧ (run rs).exited = false
    | some rest => (run rs).printed = (upTo 'q'.toUInt8 (received rest)).filter (· ≠ noChar) ∧
        ((run rs).exited = true ↔ 'q'.toUInt8 ∈ received rest) := by
  have hwrite := (uartWrite_eq str rs).trans (putAll_eq _ _)
  rw [run, hwrite]
  cases afterReady txfifoEmpty (onLine str).length rs with
  | none => exact ⟨rfl, rfl, rfl⟩
  | some rest =>
    refine ⟨rfl, ?_⟩
    simp only [readLoop_eq]
    exact ⟨trivial, decide_eq_true_iff⟩

end Camkes.UartCogent
